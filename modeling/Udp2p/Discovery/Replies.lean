import Udp2p.Discovery.Lookup

/-!
# Does the requester get the reply?

The reply to a ping goes to the sender of the request; the reply to a lookup goes to the node looked
up. The two are one peer when a node asks for itself, as it does to bootstrap.

* `embedded` — the request a message embeds, if it is a response.
* `replies_ping_iff`, `replies_lookup_iff` — when the reply is sent, and reaches the sender.
* `replies_iff` — for both kinds of request, in every state reached.
-/

namespace Udp2p

namespace Kademlia

variable {M : Type} [LinkedHashMap PeerId PeerInfo M] {W : KadWire} {localInfo : PeerInfo}

/-- The request that a response embeds. -/
def embedded (W : KadWire) (message : Message) : Option Req :=
  (responseIn W message).bind fun resp => W.req.fromBytes resp.request

/-- What a request that is to be answered asks for. -/
inductive Query where
  | ping
  | findNode (node : PeerInfo)
  deriving DecidableEq

def queryOf (W : KadWire) (request : Req) : Option Query :=
  match W.rpc.fromBytes request.payload with
  | some .ping => some .ping
  | some (.findNode node) => (W.peer.fromBytes node).map .findNode
  | _ => none

/-- Handling the request sends one response that embeds it, to the address of its sender. -/
def Replies (W : KadWire) (depth : Nat) (k : Kademlia M) (bytes : RequestBytes) (request : Req)
    (sender : PeerInfo) : Prop :=
  ∃ k' out, handleMessage W depth k (.request bytes) = some (k', out) ∧
    ∃ o, out.filter (fun o => embedded W o.message = some request) = [o] ∧ o.dst = sender.address

/-- The sender can be stored and, for a lookup, the node looked up and stored then; and the node has
the address of the sender. -/
def Answerable (k : Kademlia M) (sender : PeerInfo) : Query → Prop
  | .ping => k.routingTable.FindsRoom sender
  | .findNode node => ∃ k₁, k.updatePeer sender = some k₁ ∧ Looks k₁.routingTable node ∧
      k₁.routingTable.FindsRoom node ∧ node.address = sender.address

/-! ## Embedded requests -/

theorem embedded_responseMessage (hreq : W.req.Lawful) (hresp : W.resp.Lawful)
    (hkad : W.kad.Lawful) {resp : Resp} {request : Req} {message : Message}
    (hrequest : W.req.asBytes request = some resp.request)
    (h : responseMessage W resp = some message) : embedded W message = some request := by
  rw [embedded, responseIn_responseMessage hresp hkad h]
  exact hreq _ _ hrequest

theorem embedded_requestMessage {req : Req} {message : Message}
    (h : requestMessage W req = some message) : embedded W message = none := by
  rw [embedded, responseIn_requestMessage h]
  rfl

/-- The reply to a lookup goes to the node looked up; all else is requests. -/
theorem reply_of_lookup (hreq : W.req.Lawful) (hresp : W.resp.Lawful) (hkad : W.kad.Lawful)
    {k k' : Kademlia M} {node : PeerInfo} {request : Req} {out : List Outgoing}
    (h : lookup W k node request = some (k', out)) : ∃ o,
      out.filter (fun o => embedded W o.message = some request) = [o] ∧ o.dst = node.address := by
  obtain ⟨closestPeers, -, h⟩ := Option.bind_eq_some_iff.mp h
  obtain ⟨k₁, -, hannounce⟩ := Option.bind_eq_some_iff.mp h
  obtain ⟨id, msg, respMsg, hnew, hnodes, -, rfl⟩ := announce_eq_some hannounce
  obtain ⟨resp, nodesVec, hmessage, hrequest, -, -⟩ := prepareNodesResponse_eq_some hnodes
  obtain ⟨bytes, -, hprepare⟩ := Option.bind_eq_some_iff.mp hnew
  obtain ⟨req, hreqMsg, -, -⟩ := prepareRequest_eq_some hprepare
  have hfirst := embedded_responseMessage hreq hresp hkad hrequest hmessage
  refine ⟨{ dst := node.address, message := respMsg }, ?_, rfl⟩
  rw [List.filter_cons_of_pos (by exact decide_eq_true hfirst), List.filter_eq_nil_iff.mpr]
  -- the announcements are requests
  intro o ho
  obtain ⟨peer, -, rfl⟩ := List.mem_map.mp ho
  simp [embedded_requestMessage hreqMsg]

omit [LinkedHashMap PeerId PeerInfo M] in
theorem reply_of_pong (hreq : W.req.Lawful) (hresp : W.resp.Lawful) (hkad : W.kad.Lawful)
    {k : Kademlia M} {sender : PeerInfo} {request : Req} {message : Message}
    (h : preparePongResponse W k sender request = some message) :
    embedded W message = some request := by
  obtain ⟨info, -, h⟩ := Option.bind_eq_some_iff.mp h
  obtain ⟨bytes, hrequest, h⟩ := Option.bind_eq_some_iff.mp h
  obtain ⟨receiver, -, h⟩ := Option.bind_eq_some_iff.mp h
  obtain ⟨payload, -, hmessage⟩ := Option.bind_eq_some_iff.mp h
  exact embedded_responseMessage hreq hresp hkad hrequest hmessage

/-! ## The plan of a query -/

theorem planOf_query {bytes : RequestBytes} {request : Req} {sender : PeerInfo} {query : Query}
    (hrequest : W.req.fromBytes bytes = some request)
    (hsender : W.peer.fromBytes request.sender = some sender)
    (hquery : queryOf W request = some query) : planOf W (.request bytes) = ⟨some sender,
      match query with
      | .ping => .pong sender request
      | .findNode node => .lookup node request⟩ := by
  unfold queryOf at hquery
  simp only [planOf, requestPlan, hrequest, hsender, requestTodo]
  split at hquery
  · next hrpc =>
    cases hquery
    rw [hrpc]
    rfl
  · next node hrpc =>
    obtain ⟨info, hinfo, rfl⟩ := Option.map_eq_some_iff.mp hquery
    rw [hrpc]
    simp only [requested, hinfo]
    rfl
  · cases hquery

/-! ## Replies -/

/-- A ping is answered iff its sender finds room. -/
theorem replies_ping_iff (hW : W.Faithful localInfo) (hreq : W.req.Lawful) (hresp : W.resp.Lawful)
    (hkad : W.kad.Lawful) {k : Kademlia M} {bytes : RequestBytes} {request : Req}
    {sender : PeerInfo} (hplan : planOf W (.request bytes) = ⟨some sender, .pong sender request⟩)
    (depth : Nat) : Replies W (depth + 2) k bytes request sender ↔
      k.routingTable.FindsRoom sender := by
  rw [← updatePeer_isSome_iff, Replies, handleMessage_eq hW, hplan]
  show (∃ k' out, (k.updatePeer sender).bind _ = _ ∧ _) ↔ _
  constructor
  · intro h
    obtain ⟨k', out, hexec, -⟩ := h
    obtain ⟨k₁, hupdate, -⟩ := Option.bind_eq_some_iff.mp hexec
    rw [hupdate]
    rfl
  · intro h
    obtain ⟨k₁, hupdate⟩ := Option.isSome_iff_exists.mp h
    obtain ⟨message, hmessage⟩ :=
      Option.isSome_iff_exists.mp (preparePongResponse_isSome hW k₁ sender request)
    let reply : Outgoing := { dst := sender.address, message }
    refine ⟨k₁, [reply], ?_, reply, ?_, rfl⟩
    · rw [hupdate, Option.bind_some, act, hmessage]
      rfl
    · have hembedded := reply_of_pong hreq hresp hkad hmessage
      exact List.filter_eq_self.mpr fun o ho => by
        rw [List.mem_singleton.mp ho]
        exact decide_eq_true hembedded

/-- A lookup is answered iff it can be done, and its sender gets the answer iff the node looked up
has the sender's address. -/
theorem replies_lookup_iff (hW : W.Faithful localInfo) (hreq : W.req.Lawful)
    (hresp : W.resp.Lawful) (hkad : W.kad.Lawful) {k : Kademlia M}
    (hbucketed : k.routingTable.Bucketed) {bytes : RequestBytes} {request : Req}
    {sender node : PeerInfo}
    (hplan : planOf W (.request bytes) = ⟨some sender, .lookup node request⟩) (depth : Nat) :
    Replies W (depth + 2) k bytes request sender ↔ Answerable k sender (.findNode node) := by
  rw [Replies, handleMessage_eq hW, hplan]
  show (∃ k' out, (k.updatePeer sender).bind (fun k => lookup W k node request) = _ ∧ _) ↔ _
  have hlooks : ∀ {k₁ : Kademlia M}, k.updatePeer sender = some k₁ →
      ((lookup W k₁ node request).isSome ↔ Looks k₁.routingTable node ∧
        k₁.routingTable.FindsRoom node) := by
    intro k₁ hupdate
    have hbucketed' := (Effects.update (W := W) hupdate |>.bucketed hbucketed).1
    exact lookup_isSome_iff hW hbucketed' node request
  constructor
  · intro h
    obtain ⟨k', out, hexec, o, hreply, haddress⟩ := h
    obtain ⟨k₁, hupdate, hlookup⟩ := Option.bind_eq_some_iff.mp hexec
    obtain ⟨hlook, hroom⟩ := (hlooks hupdate).mp (by rw [hlookup]; rfl)
    obtain ⟨o', hreply', haddress'⟩ := reply_of_lookup hreq hresp hkad hlookup
    rw [hreply', List.singleton_inj] at hreply
    exact ⟨k₁, hupdate, hlook, hroom, by rw [← haddress', hreply, haddress]⟩
  · intro h
    obtain ⟨k₁, hupdate, hlook, hroom, haddress⟩ := h
    obtain ⟨⟨k', out⟩, hlookup⟩ := Option.isSome_iff_exists.mp ((hlooks hupdate).mpr ⟨hlook, hroom⟩)
    obtain ⟨o, hreply, hdst⟩ := reply_of_lookup hreq hresp hkad hlookup
    exact ⟨k', out, by rw [hupdate, Option.bind_some, hlookup], o, hreply, hdst.trans haddress⟩

/-- **Replies go to the requester**, exactly: in every state reached, a request of either kind that
decodes is answered by one response to the address of its sender iff the sender can be stored and,
for a lookup, the node looked up and stored then, and the node has the address of the sender. -/
theorem replies_iff (hW : W.Faithful localInfo) (hreq : W.req.Lawful) (hresp : W.resp.Lawful)
    (hkad : W.kad.Lawful) {depth now : Nat} {pending : HashSet InnerKey} {draws : Nat → Draw}
    {events : List Event} {k : Kademlia M} {outs : List Outgoing}
    (hrun : (machine W depth).run (new localInfo now pending draws) events = some (k, outs))
    {bytes : RequestBytes} {request : Req} {sender : PeerInfo} {query : Query}
    (hrequest : W.req.fromBytes bytes = some request)
    (hsender : W.peer.fromBytes request.sender = some sender)
    (hquery : queryOf W request = some query) (depth' : Nat) :
    Replies W (depth' + 2) k bytes request sender ↔ Answerable k sender query := by
  have hplan := planOf_query hrequest hsender hquery
  cases query with
  | ping => exact replies_ping_iff hW hreq hresp hkad hplan depth'
  | findNode node =>
    exact replies_lookup_iff hW hreq hresp hkad (bucketed_of_run hrun).1 hplan depth'

/-! ## A node that looks for another one -/

open RoutingTable

/-- It asks for a peer with another address. -/
def requester : PeerInfo := { peerAt 128 1 with address := .v4 .localhost 9393 }

def elsewhere : Req := findRequest requester (peerAt 128 0)

def elsewhereWire : KadWire := .formatted
  (.reading peerJson [localPeer, requester, peerAt 128 0])
  (.reading rpcJson [.findNode (peerJson (peerAt 128 0))])

theorem elsewhere_read : elsewhereWire.req.fromBytes (reqJson elsewhere) = some elsewhere :=
  KadWire.formatted_req _ _ elsewhere

theorem elsewhere_sender : elsewhereWire.peer.fromBytes elsewhere.sender = some requester := by
  decide +kernel

theorem elsewhere_query : queryOf elsewhereWire elsewhere = some (.findNode (peerAt 128 0)) := by
  decide +kernel

theorem elsewhere_replies_iff : Replies elsewhereWire 2
      (new localPeer 0 ∅ someDraws : Kademlia ListedNodes) (reqJson elsewhere) elsewhere requester ↔
    Answerable (new localPeer 0 ∅ someDraws : Kademlia ListedNodes) requester
      (.findNode (peerAt 128 0)) := by
  have hrun : (machine elsewhereWire 2).run (new localPeer 0 ∅ someDraws) [] =
    some ((new localPeer 0 ∅ someDraws : Kademlia ListedNodes), []) := rfl
  exact replies_iff KadWire.formatted_faithful (ByteRep.ofFormat_lawful _)
    (ByteRep.ofFormat_lawful _) (ByteRep.ofFormat_lawful _) hrun elsewhere_read elsewhere_sender
    elsewhere_query 0

/-- The peer looked up gets the answer. -/
theorem answered_elsewhere :
    ¬ ∀ (W : KadWire) (localInfo : PeerInfo), W.Faithful localInfo → W.req.Lawful → W.resp.Lawful →
      W.kad.Lawful → ∀ (depth now : Nat) (pending : HashSet InnerKey) (draws : Nat → Draw)
      (events : List Event) (k : Kademlia ListedNodes) (outs : List Outgoing),
      (machine W depth).run (new localInfo now pending draws) events = some (k, outs) →
      ∀ (bytes : RequestBytes) (request : Req) (sender : PeerInfo) (query : Query),
      W.req.fromBytes bytes = some request → W.peer.fromBytes request.sender = some sender →
      queryOf W request = some query → ∀ depth', Replies W (depth' + 2) k bytes request sender := by
  intro hall
  have hfaithful : elsewhereWire.Faithful localPeer := KadWire.formatted_faithful
  have hreplies := hall elsewhereWire localPeer hfaithful (ByteRep.ofFormat_lawful _)
    (ByteRep.ofFormat_lawful _) (ByteRep.ofFormat_lawful _) 2 0 ∅ someDraws [] _ [] rfl _ _ _ _
    elsewhere_read elsewhere_sender elsewhere_query 0
  have hplan := planOf_query elsewhere_read elsewhere_sender elsewhere_query
  obtain ⟨k₁, -, -, -, haddress⟩ := (replies_lookup_iff hfaithful (ByteRep.ofFormat_lawful _)
    (ByteRep.ofFormat_lawful _) (ByteRep.ofFormat_lawful _) (bucketed_new localPeer 0) hplan
    0).mp hreplies
  exact absurd haddress (by decide)

end Kademlia

end Udp2p
