import Udp2p.Discovery.Closest
import Udp2p.Discovery.Flooding
import Udp2p.Discovery.Json

/-!
# What does a lookup send?

`lookup_node` answers a request with the peers closest to a node, stores the node, and announces it
to these peers. Here the messages are read again by whoever receives them.

* `responseIn`, `requestIn` — what a message carries, down to the RPC.
* `lookupNode_eq_some` — a lookup finds peers, stores the node, and announces it.
* `lookupNode_sends` — they answer the request, and announce the node to the peers listed.
-/

namespace Udp2p

/-- What is written is read back, for every message type. -/
structure KadWire.Lawful (W : KadWire) : Prop where
  peer : W.peer.Lawful
  rpc : W.rpc.Lawful
  req : W.req.Lawful
  resp : W.resp.Lawful
  kad : W.kad.Lawful

namespace Kademlia

variable {M : Type} [LinkedHashMap PeerId PeerInfo M]

/-! ## Reading a message -/

/-- The request a message carries. -/
def requestIn (W : KadWire) (message : Message) : Option Req :=
  match message.head, W.kad.fromBytes message.msg with
  | .request, some (.request bytes) => W.req.fromBytes bytes
  | _, _ => none

/-- The response a message carries. -/
def responseIn (W : KadWire) (message : Message) : Option Resp :=
  match message.head, W.kad.fromBytes message.msg with
  | .response, some (.response bytes) => W.resp.fromBytes bytes
  | _, _ => none

/-- The message answers the request with these peers. -/
def Answers (W : KadWire) (message : Message) (req : Req) (peers : List PeerInfo) : Prop :=
  ∃ resp nodes, responseIn W message = some resp ∧ W.req.fromBytes resp.request = some req ∧
    W.rpc.fromBytes resp.payload = some (.nodes nodes) ∧
    nodes.mapM W.peer.fromBytes = some peers

/-- The message asks to add the node. -/
def Announces (W : KadWire) (message : Message) (node : PeerInfo) : Prop :=
  ∃ req peer, requestIn W message = some req ∧ W.rpc.fromBytes req.payload = some (.newPeer peer) ∧
    W.peer.fromBytes peer = some node

variable {W : KadWire}

theorem requestIn_requestMessage (hreq : W.req.Lawful) (hkad : W.kad.Lawful) {req : Req}
    {message : Message} (h : requestMessage W req = some message) :
    requestIn W message = some req := by
  obtain ⟨bytes, hbytes, h⟩ := Option.bind_eq_some_iff.mp h
  obtain ⟨msg, hmsg, heq⟩ := Option.bind_eq_some_iff.mp h
  cases heq
  simp only [requestIn, hkad _ _ hmsg, hreq _ _ hbytes]

theorem responseIn_responseMessage (hresp : W.resp.Lawful) (hkad : W.kad.Lawful) {resp : Resp}
    {message : Message} (h : responseMessage W resp = some message) :
    responseIn W message = some resp := by
  obtain ⟨bytes, hbytes, h⟩ := Option.bind_eq_some_iff.mp h
  obtain ⟨msg, hmsg, heq⟩ := Option.bind_eq_some_iff.mp h
  cases heq
  simp only [responseIn, hkad _ _ hmsg, hresp _ _ hbytes]

/-- A request is no response. -/
theorem responseIn_requestMessage {req : Req} {message : Message}
    (h : requestMessage W req = some message) : responseIn W message = none := by
  obtain ⟨bytes, -, h⟩ := Option.bind_eq_some_iff.mp h
  obtain ⟨msg, -, heq⟩ := Option.bind_eq_some_iff.mp h
  cases heq
  rfl

/-! ## The messages of a lookup -/

omit [LinkedHashMap PeerId PeerInfo M] in
/-- What a response to a lookup is written from. -/
theorem prepareNodesResponse_eq_some {k : Kademlia M} {req : Req} {nodes : List PeerInfo}
    {message : Message} (h : prepareNodesResponseMessage W k req nodes = some message) :
    ∃ resp nodesVec, responseMessage W resp = some message ∧
      W.req.asBytes req = some resp.request ∧ W.rpc.asBytes (.nodes nodesVec) = some resp.payload ∧
      nodes.mapM W.peer.asBytes = some nodesVec := by
  obtain ⟨nodesVec, hnodes, h⟩ := Option.bind_eq_some_iff.mp h
  obtain ⟨request, hrequest, h⟩ := Option.bind_eq_some_iff.mp h
  obtain ⟨receiver, -, h⟩ := Option.bind_eq_some_iff.mp h
  obtain ⟨payload, hpayload, h⟩ := Option.bind_eq_some_iff.mp h
  exact ⟨_, nodesVec, h, hrequest, hpayload, hnodes⟩

omit [LinkedHashMap PeerId PeerInfo M] in
theorem announces_of_prepareNewPeer (hW : W.Lawful) {k : Kademlia M} {node : PeerInfo}
    {id : InnerKey} {message : Message}
    (h : prepareNewPeerMessage W k node = some (id, message)) : Announces W message node := by
  obtain ⟨bytes, hbytes, h⟩ := Option.bind_eq_some_iff.mp h
  obtain ⟨req, hreq, hpayload, -⟩ := prepareRequest_eq_some h
  exact ⟨req, bytes, requestIn_requestMessage hW.req hW.kad hreq, hW.rpc _ _ hpayload,
    hW.peer _ _ hbytes⟩

omit [LinkedHashMap PeerId PeerInfo M] in
theorem answers_of_prepareNodesResponse (hW : W.Lawful) {k : Kademlia M} {req : Req}
    {nodes : List PeerInfo} {message : Message}
    (h : prepareNodesResponseMessage W k req nodes = some message) :
    Answers W message req nodes := by
  obtain ⟨resp, nodesVec, hresp, hreq, hpayload, hnodes⟩ := prepareNodesResponse_eq_some h
  exact ⟨resp, nodesVec, responseIn_responseMessage hW.resp hW.kad hresp, hW.req _ _ hreq,
    hW.rpc _ _ hpayload, mapM_of_inverse hW.peer hnodes⟩

/-- A node looked up is stored: a node that cannot be written is not announced either. -/
theorem lookupNode_eq_some {k k' : Kademlia M} {node : PeerInfo} {req : Req} {out : List Outgoing}
    (hpeer : W.peer.Lawful) (h : lookupNode W k node req = some (k', out)) :
    ∃ closestPeers k₁, k.routingTable.getClosestPeers node defaultNPeers = some closestPeers ∧
      k.updatePeer node = some k₁ ∧ announce W k₁ node req closestPeers = some (k', out) := by
  obtain ⟨closestPeers, hclosest, h⟩ := Option.bind_eq_some_iff.mp h
  obtain ⟨k₁, hadd, hannounce⟩ := Option.bind_eq_some_iff.mp h
  cases hbytes : W.peer.asBytes node with
  | none =>
    obtain ⟨⟨id, msg⟩, hprepare, -⟩ := Option.bind_eq_some_iff.mp hannounce
    rw [prepareNewPeerMessage, hbytes] at hprepare
    cases hprepare
  | some bytes =>
    simp only [hbytes] at hadd
    obtain ⟨info, hinfo, hupdate⟩ := addPeer_eq_some.mp hadd
    rw [hpeer _ _ hbytes, Option.some.injEq] at hinfo
    subst hinfo
    exact ⟨closestPeers, k₁, hclosest, hupdate, hannounce⟩

/-- **A lookup**, in every state: one response that answers the request with `min(8, total_peers())`
peers of the table, none used twice, and one request to each of these, in this order, that announces
the node; the node is known then, and so is whoever was. -/
theorem lookupNode_sends (hW : W.Lawful) {k k' : Kademlia M} {node : PeerInfo} {req : Req}
    {out : List Outgoing} (h : lookupNode W k node req = some (k', out)) :
    out.length = 1 + min defaultNPeers k.routingTable.totalPeers ∧
    (∃ peers response announcement dst,
      peers.length = min defaultNPeers k.routingTable.totalPeers ∧
      (∃ rest, (peers ++ rest).Perm k.routingTable.getAllPeers) ∧
      Answers W response req peers ∧ Announces W announcement node ∧
      out.map (fun o => (o.dst, o.message)) =
        (dst, response) :: peers.map fun peer => (peer.address, announcement)) ∧
    k'.routingTable.known = insert node.id k.routingTable.known := by
  obtain ⟨peers, k₁, hclosest, hupdate, hannounce⟩ := lookupNode_eq_some hW.peer h
  obtain ⟨id, announcement, response, hnew, hnodes, rfl, rfl⟩ := announce_eq_some hannounce
  obtain ⟨hlen, hperm⟩ := RoutingTable.perm_of_getClosestPeers hclosest
  have hknown := known_updatePeer hupdate
  refine ⟨?_, ⟨peers, response, announcement, node.address, hlen, hperm,
    answers_of_prepareNodesResponse hW hnodes, announces_of_prepareNewPeer hW hnew, ?_⟩,
    hknown⟩
  · rw [List.length_cons, List.length_map, hlen, Nat.add_comm]
  · rw [List.map_cons, List.map_map]
    rfl

/-! ## More peers than are listed -/

open RoutingTable

/-- Peers with keys and addresses of their own. -/
def listedPeer (i : Nat) : PeerInfo :=
  { peerAt (.ofNat (128 + i)) i with address := .v4 .localhost (.ofNat i) }

/-- The local peer, and nine others in one bucket. -/
def tenPeers : Kademlia ListedNodes :=
  { (new localPeer 0 ∅ someDraws : Kademlia ListedNodes) with
    routingTable := (List.range 9).foldl (fun (t : RoutingTable ListedNodes) i =>
      t.put (listedPeer i) 0 ['1']) (RoutingTable.new localPeer 0) }

/-- Peer discovery in JSON, for these peers and the one looked up. -/
def lookupWire : KadWire := .formatted
  (.table ((localPeer :: (List.range 10).map listedPeer).map fun peer => (peer, peerJson peer)))
  (.ofFormat rpcFormat)

theorem lookupWire_lawful : lookupWire.Lawful where
  peer := ByteRep.table_lawful (by decide +kernel)
  rpc := ByteRep.ofFormat_lawful _
  req := ByteRep.ofFormat_lawful _
  resp := ByteRep.ofFormat_lawful _
  kad := ByteRep.ofFormat_lawful _

/-- A request for the peers near a node. -/
def findRequest (sender node : PeerInfo) : Req where
  id := List.Vector.replicate 32 7
  sender := peerJson sender
  payload := rpcJson (.findNode (peerJson node))

/-- The tenth peer is told the eight closest to it, and these are told of it, closest first. -/
theorem tenth_peer_looked_up : ∃ (k' : Kademlia ListedNodes) (out : List Outgoing),
    lookupNode lookupWire tenPeers (listedPeer 9) (findRequest (listedPeer 9) (listedPeer 9)) =
      some (k', out) ∧
    out.map Outgoing.dst =
      [9, 8, 1, 0, 3, 2, 5, 4, 7].map (fun i => (listedPeer i).address) ∧
    out.length = 1 + min defaultNPeers 10 ∧
    (∃ peers response announcement dst,
      peers.length = min defaultNPeers 10 ∧
      (∃ rest, (peers ++ rest).Perm tenPeers.routingTable.getAllPeers) ∧
      Answers lookupWire response (findRequest (listedPeer 9) (listedPeer 9)) peers ∧
      Announces lookupWire announcement (listedPeer 9) ∧
      out.map (fun o => (o.dst, o.message)) =
        (dst, response) :: peers.map fun peer => (peer.address, announcement)) ∧
    k'.routingTable.known = insert (listedPeer 9).id tenPeers.routingTable.known := by
  have hdst : (lookupNode lookupWire tenPeers (listedPeer 9)
      (findRequest (listedPeer 9) (listedPeer 9))).map (fun r => r.2.map Outgoing.dst) =
        some ([9, 8, 1, 0, 3, 2, 5, 4, 7].map fun i => (listedPeer i).address) := by
    decide +kernel
  obtain ⟨⟨k', out⟩, h, hout⟩ := Option.map_eq_some_iff.mp hdst
  exact ⟨k', out, h, hout, lookupNode_sends lookupWire_lawful h⟩

end Kademlia

end Udp2p
