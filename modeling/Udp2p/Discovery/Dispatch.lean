import Udp2p.Discovery.Capacity
import Udp2p.Discovery.Kademlia

/-!
# What does a message ask for?

The handlers decode a message while they act on it. Here the decoding comes first: `planOf` reads
off a message which peer is stored as its sender and what is to be done then, and `execute` does
it.

The serialiser is one that writes every value, reads a peer it has read once again, and reads one
payload from bytes that are both a request and a response (`KadWire.Faithful`). Then:

* `handleMessage_eq` — handling a message is executing its plan, at any depth from two on;
* `act_isSome_iff`, `execute_isSome_iff` — what is to be done can be done iff it `Fits` into the
  routing table.

`KadWire.json` writes JSON, and reads the values of a list.
-/

namespace Udp2p

/-- What peer discovery relies on: writing never fails; a peer that was read is read again from
what is written for it; the local peer is read back with its key; and a request and a response read
from the same bytes have the same payload. -/
structure KadWire.Faithful (W : KadWire) (localInfo : PeerInfo) : Prop where
  peer : W.peer.Total
  rpc : W.rpc.Total
  req : W.req.Total
  resp : W.resp.Total
  kad : W.kad.Total
  stable : ∀ {bytes info bytes'}, W.peer.fromBytes bytes = some info →
    W.peer.asBytes info = some bytes' → W.peer.fromBytes bytes' = some info
  self : ∀ {bytes}, W.peer.asBytes localInfo = some bytes →
    ∃ info, W.peer.fromBytes bytes = some info ∧ info.key = localInfo.key
  payload : ∀ {bytes request response}, W.req.fromBytes bytes = some request →
    W.resp.fromBytes bytes = some response → request.payload = response.payload

theorem KadWire.Faithful.exists_bytes {W : KadWire} {localInfo : PeerInfo}
    (hW : W.Faithful localInfo) {bytes : Peer} {info : PeerInfo}
    (h : W.peer.fromBytes bytes = some info) :
    ∃ bytes', W.peer.asBytes info = some bytes' ∧ W.peer.fromBytes bytes' = some info := by
  obtain ⟨bytes', hbytes'⟩ := hW.peer.exists_bytes info
  exact ⟨bytes', hbytes', hW.stable h hbytes'⟩

namespace Kademlia

variable {M : Type} [LinkedHashMap PeerId PeerInfo M] (W : KadWire)

/-! ## Plans -/

/-- What a message asks for, once its sender is stored. -/
inductive Todo where
  /-- Bytes that do not decode are unwrapped. -/
  | panic
  /-- Bytes that do not decode are looked into. -/
  | lost
  | nothing
  | add (peer : PeerInfo)
  | lookup (node : PeerInfo) (request : Req)
  | pong (sender : PeerInfo) (request : Req)
  | meet (nodes : Nodes)
  deriving DecidableEq

/-- The peer stored as the sender of a request, and what is to be done then. -/
structure Plan where
  sender : Option PeerInfo
  todo : Todo
  deriving DecidableEq

/-- The RPCs a request handler deals with. -/
def requested (request : Req) (sender : PeerInfo) : RPC → Option Todo
  | .findNode node => some ((W.peer.fromBytes node).elim .lost (.lookup · request))
  | .newPeer peer => some ((W.peer.fromBytes peer).elim .panic .add)
  | .findValue _ => some .nothing
  | .store _ _ => some .nothing
  | .ping => some (.pong sender request)
  | _ => none

/-- The RPCs a response handler deals with. -/
def responded : RPC → Option Todo
  | .nodes nodes => some (.meet nodes)
  | .value _ => some .nothing
  | .saved _ => some .nothing
  | .pong peer => some ((W.peer.fromBytes peer).elim .panic .add)
  | _ => none

/-- The request a response answers, and its RPC. -/
def readResponse (bytes : ResponseBytes) : Option (Req × Option RPC) := do
  let response ← W.resp.fromBytes bytes
  let request ← W.req.fromBytes response.request
  return (request, W.rpc.fromBytes response.payload)

/-- What the bytes of a request ask for beyond storing the sender: an RPC of a response is looked
for in the same bytes read as a response. -/
def requestTodo (bytes : RequestBytes) (request : Req) (sender : PeerInfo) : Todo :=
  match W.rpc.fromBytes request.payload with
  | none => .panic
  | some rpc =>
    match requested W request sender rpc with
    | some todo => todo
    | none =>
      match readResponse W bytes with
      | none => .lost
      | some _ => (responded W rpc).getD .panic

def requestPlan (bytes : RequestBytes) : Plan :=
  match W.req.fromBytes bytes with
  | none => ⟨none, .lost⟩
  | some request =>
    match W.peer.fromBytes request.sender with
    | none => ⟨none, .panic⟩
    | some sender => ⟨some sender, requestTodo W bytes request sender⟩

def responsePlan (bytes : ResponseBytes) : Plan :=
  match readResponse W bytes with
  | none => ⟨none, .lost⟩
  | some (_, none) => ⟨none, .panic⟩
  | some (_, some rpc) =>
    match responded W rpc with
    | some todo => ⟨none, todo⟩
    | none => requestPlan W bytes

def planOf : KadMessage → Plan
  | .request req => requestPlan W req
  | .response resp => responsePlan W resp
  | .kill => ⟨none, .nothing⟩

/-! ## Executing a plan -/

/-- `lookup_node` of a node that was read. -/
def lookup (k : Kademlia M) (node : PeerInfo) (request : Req) :
    Option (Kademlia M × List Outgoing) := do
  let closestPeers ← k.routingTable.getClosestPeers node defaultNPeers
  let k ← k.updatePeer node
  announce W k node request closestPeers

def act (k : Kademlia M) : Todo → Option (Kademlia M × List Outgoing)
  | .panic => none
  | .lost => some (k, [])
  | .nothing => some (k, [])
  | .add peer => (k.updatePeer peer).map fun k => (k, [])
  | .lookup node request => lookup W k node request
  | .pong sender request =>
    (preparePongResponse W k sender request).map fun respMsg =>
      (k, [{ dst := sender.address, message := respMsg }])
  | .meet nodes => (nodesLoop W).run k nodes

/-- The sender of a request is stored. -/
def storeSender (k : Kademlia M) (plan : Plan) : Option (Kademlia M) :=
  match plan.sender with
  | some sender => k.updatePeer sender
  | none => some k

def execute (k : Kademlia M) (plan : Plan) : Option (Kademlia M × List Outgoing) :=
  (storeSender k plan).bind fun k => act W k plan.todo

variable {W} {localInfo : PeerInfo}

/-- Adding a peer that was read is updating it, once or through its bytes. -/
theorem addPeer_of_read {k : Kademlia M} {bytes : Peer} {info : PeerInfo}
    (h : W.peer.fromBytes bytes = some info) : addPeer W k bytes = k.updatePeer info := by
  rw [addPeer, h]
  rfl

theorem addPeer_eq_elim (k : Kademlia M) (bytes : Peer) :
    (addPeer W k bytes).bind (fun k => some (k, [])) =
      act W k ((W.peer.fromBytes bytes).elim .panic .add) := by
  unfold addPeer
  cases W.peer.fromBytes bytes with
  | none => rfl
  | some info => exact (Option.map_eq_bind ..).symm

theorem lookupNode_eq (hW : W.Faithful localInfo) {k : Kademlia M} {bytes : Peer}
    {node : PeerInfo} (h : W.peer.fromBytes bytes = some node) (request : Req) :
    lookupNode W k node request = lookup W k node request := by
  obtain ⟨bytes', hbytes', hread⟩ := hW.exists_bytes h
  simp only [lookupNode, lookup, hbytes', addPeer_of_read hread]

/-- One level of `handle_request`. -/
theorem handleRequest_succ (hW : W.Faithful localInfo) (depth : Nat) (k : Kademlia M)
    (bytes : RequestBytes) : handleRequest W (depth + 1) k bytes =
      match W.req.fromBytes bytes with
      | none => some (k, [])
      | some request =>
        match W.peer.fromBytes request.sender with
        | none => none
        | some sender => (k.updatePeer sender).bind fun k =>
          match W.rpc.fromBytes request.payload with
          | none => none
          | some rpc =>
            match requested W request sender rpc with
            | some todo => act W k todo
            | none => handleResponse W depth k bytes := by
  rw [handleRequest]
  cases W.req.fromBytes bytes with
  | none => rfl
  | some request =>
    simp only [Req.toComponents]
    cases hsender : W.peer.fromBytes request.sender with
    | none => rfl
    | some sender =>
      obtain ⟨bytes', hbytes', hread⟩ := hW.exists_bytes hsender
      simp only [Option.bind_eq_bind, Option.bind_some, hbytes', addPeer_of_read hread]
      congr 1
      funext k
      cases W.rpc.fromBytes request.payload with
      | none => rfl
      | some rpc =>
        cases rpc with
        | findNode node =>
          simp only [Option.bind_some, requested]
          cases hnode : W.peer.fromBytes node with
          | none => rfl
          | some node' => exact lookupNode_eq hW hnode request
        | newPeer peer => exact addPeer_eq_elim k peer
        | ping => exact (Option.map_eq_bind ..).symm
        | _ => rfl

/-- One level of `handle_response`. -/
theorem handleResponse_succ (depth : Nat) (k : Kademlia M) (bytes : ResponseBytes) :
    handleResponse W (depth + 1) k bytes =
      match readResponse W bytes with
      | none => some (k, [])
      | some (_, none) => none
      | some (_, some rpc) =>
        match responded W rpc with
        | some todo => act W k todo
        | none => handleRequest W depth k bytes := by
  rw [handleResponse, readResponse]
  cases W.resp.fromBytes bytes with
  | none => rfl
  | some response =>
    simp only [Resp.toComponents, Option.bind_eq_bind, Option.bind_some]
    cases W.req.fromBytes response.request with
    | none => rfl
    | some request =>
      cases W.rpc.fromBytes response.payload with
      | none => rfl
      | some rpc =>
        cases rpc with
        | pong peer => exact addPeer_eq_elim k peer
        | _ => rfl

/-- Every RPC belongs to one of the handlers. -/
theorem exists_responded {request : Req} {sender : PeerInfo} {rpc : RPC}
    (h : requested W request sender rpc = none) : ∃ todo, responded W rpc = some todo := by
  cases rpc <;> first | exact ⟨_, rfl⟩ | cases h

theorem exists_requested {rpc : RPC} (h : responded W rpc = none) (request : Req)
    (sender : PeerInfo) : ∃ todo, requested W request sender rpc = some todo := by
  cases rpc <;> first | exact ⟨_, rfl⟩ | cases h

/-- Bytes that are a request too have the RPC of the request. -/
theorem rpc_of_readResponse (hW : W.Faithful localInfo) {bytes : List UInt8}
    {request answered : Req} {rpc? : Option RPC} (hrequest : W.req.fromBytes bytes = some request)
    (h : readResponse W bytes = some (answered, rpc?)) :
    rpc? = W.rpc.fromBytes request.payload := by
  obtain ⟨response, hresponse, h⟩ := Option.bind_eq_some_iff.mp h
  obtain ⟨answered', -, heq⟩ := Option.bind_eq_some_iff.mp h
  cases heq
  rw [hW.payload hrequest hresponse]

/-- Two levels are enough for a request: the second reads a response, and its RPC is one of a
response. -/
theorem handleRequest_eq (hW : W.Faithful localInfo) (depth : Nat) (k : Kademlia M)
    (bytes : RequestBytes) :
    handleRequest W (depth + 2) k bytes = execute W k (requestPlan W bytes) := by
  rw [handleRequest_succ hW, requestPlan]
  cases hrequest : W.req.fromBytes bytes with
  | none => rfl
  | some request =>
    dsimp only
    cases W.peer.fromBytes request.sender with
    | none => rfl
    | some sender =>
      simp only [execute, storeSender, requestTodo]
      congr 1
      funext k
      cases hrpc : W.rpc.fromBytes request.payload with
      | none => rfl
      | some rpc =>
        dsimp only
        cases hasked : requested W request sender rpc with
        | some todo => rfl
        | none =>
          -- the bytes are read again, as a response
          obtain ⟨todo, htodo⟩ := exists_responded hasked
          simp only [handleResponse_succ]
          cases hread : readResponse W bytes with
          | none => rfl
          | some r =>
            obtain ⟨answered, rpc?⟩ := r
            obtain rfl := rpc_of_readResponse hW hrequest hread
            simp [hrpc, htodo]

theorem handleResponse_eq (hW : W.Faithful localInfo) (depth : Nat) (k : Kademlia M)
    (bytes : ResponseBytes) :
    handleResponse W (depth + 2) k bytes = execute W k (responsePlan W bytes) := by
  rw [handleResponse_succ, responsePlan]
  cases hread : readResponse W bytes with
  | none => rfl
  | some r =>
    obtain ⟨answered, _ | rpc⟩ := r
    · rfl
    · dsimp only
      cases hasked : responded W rpc with
      | some todo => rfl
      | none =>
        -- the bytes are read again, as a request
        simp only [handleRequest_succ hW, requestPlan]
        cases hrequest : W.req.fromBytes bytes with
        | none => rfl
        | some request =>
          dsimp only
          cases W.peer.fromBytes request.sender with
          | none => rfl
          | some sender =>
            obtain ⟨todo, htodo⟩ := exists_requested hasked request sender
            have hrpc := rpc_of_readResponse hW hrequest hread
            simp [execute, storeSender, requestTodo, ← hrpc, htodo]

/-- **Handling a message is executing its plan.** -/
theorem handleMessage_eq (hW : W.Faithful localInfo) (depth : Nat) (k : Kademlia M)
    (message : KadMessage) :
    handleMessage W (depth + 2) k message = execute W k (planOf W message) := by
  cases message with
  | request req => exact handleRequest_eq hW depth k req
  | response resp => exact handleResponse_eq hW depth k resp
  | kill => rfl

/-- A run over one message is the execution of its plan. -/
theorem run_of_execute (hW : W.Faithful localInfo) {k k' : Kademlia M} {message : KadMessage}
    {out : List Outgoing} (h : execute W k (planOf W message) = some (k', out)) :
    (machine W 2).run k [.handleMessage message] = some (k', out) := by
  rw [Machine.run_singleton_eq_some]
  exact (handleMessage_eq hW 0 k message).trans h

/-! ## When it can be done -/

theorem requestMessage_isSome (hW : W.Faithful localInfo) (req : Req) :
    (requestMessage W req).isSome := by
  obtain ⟨bytes, hbytes⟩ := hW.req.exists_bytes req
  obtain ⟨msg, hmsg⟩ := hW.kad.exists_bytes (.request bytes)
  simp [requestMessage, hbytes, hmsg]

theorem responseMessage_isSome (hW : W.Faithful localInfo) (resp : Resp) :
    (responseMessage W resp).isSome := by
  obtain ⟨bytes, hbytes⟩ := hW.resp.exists_bytes resp
  obtain ⟨msg, hmsg⟩ := hW.kad.exists_bytes (.response bytes)
  simp [responseMessage, hbytes, hmsg]

omit [LinkedHashMap PeerId PeerInfo M] in
theorem prepareRequest_isSome (hW : W.Faithful localInfo) (k : Kademlia M) (rpc : RPC) :
    (prepareRequest W k rpc).isSome := by
  obtain ⟨payload, hpayload⟩ := hW.rpc.exists_bytes rpc
  obtain ⟨sender, hsender⟩ := hW.peer.exists_bytes k.routingTable.localInfo
  obtain ⟨message, hmessage⟩ := Option.isSome_iff_exists.mp
    (requestMessage_isSome hW { id := (k.draws 0).key, sender, payload })
  simp [prepareRequest, hpayload, hsender, hmessage]

omit [LinkedHashMap PeerId PeerInfo M] in
theorem prepareNewPeerMessage_isSome (hW : W.Faithful localInfo) (k : Kademlia M)
    (peer : PeerInfo) : (prepareNewPeerMessage W k peer).isSome := by
  obtain ⟨bytes, hbytes⟩ := hW.peer.exists_bytes peer
  rw [prepareNewPeerMessage, hbytes]
  exact prepareRequest_isSome hW k _

omit [LinkedHashMap PeerId PeerInfo M] in
theorem prepareNodesResponseMessage_isSome (hW : W.Faithful localInfo) (k : Kademlia M) (req : Req)
    (nodes : List PeerInfo) : (prepareNodesResponseMessage W k req nodes).isSome := by
  obtain ⟨nodesVec, hnodes⟩ := Option.isSome_iff_exists.mp
    (isSome_mapM_iff.mpr fun peer (_ : peer ∈ nodes) => hW.peer peer)
  obtain ⟨request, hrequest⟩ := hW.req.exists_bytes req
  obtain ⟨receiver, hreceiver⟩ := hW.peer.exists_bytes k.routingTable.localInfo
  obtain ⟨payload, hpayload⟩ := hW.rpc.exists_bytes (.nodes nodesVec)
  have hresponse := responseMessage_isSome hW { request, receiver, payload }
  simpa [prepareNodesResponseMessage, hnodes, hrequest, hreceiver, hpayload] using hresponse

omit [LinkedHashMap PeerId PeerInfo M] in
theorem preparePongResponse_isSome (hW : W.Faithful localInfo) (k : Kademlia M) (peer : PeerInfo)
    (req : Req) : (preparePongResponse W k peer req).isSome := by
  obtain ⟨info, hinfo⟩ := hW.peer.exists_bytes k.routingTable.localInfo
  obtain ⟨request, hrequest⟩ := hW.req.exists_bytes req
  obtain ⟨receiver, hreceiver⟩ := hW.peer.exists_bytes peer
  obtain ⟨payload, hpayload⟩ := hW.rpc.exists_bytes (.pong info)
  have hresponse := responseMessage_isSome hW { request, receiver, payload }
  simpa [preparePongResponse, hinfo, hrequest, hreceiver, hpayload] using hresponse

omit [LinkedHashMap PeerId PeerInfo M] in
theorem announce_isSome (hW : W.Faithful localInfo) (k : Kademlia M) (node : PeerInfo) (req : Req)
    (closestPeers : List PeerInfo) : (announce W k node req closestPeers).isSome := by
  obtain ⟨r, hr⟩ := Option.isSome_iff_exists.mp (prepareNewPeerMessage_isSome hW k node)
  obtain ⟨respMsg, hresp⟩ := Option.isSome_iff_exists.mp
    (prepareNodesResponseMessage_isSome hW k req closestPeers)
  simp [announce, hr, hresp]

theorem updatePeer_isSome_iff {k : Kademlia M} {peer : PeerInfo} :
    (k.updatePeer peer).isSome ↔ k.routingTable.FindsRoom peer := by
  rw [updatePeer_eq, Option.isSome_map]
  exact PrefixTree.place_isSome_iff

theorem updatePeer_localInfo {k k' : Kademlia M} {peer : PeerInfo}
    (h : k.updatePeer peer = some k') : k'.routingTable.localInfo = k.routingTable.localInfo := by
  obtain ⟨dest, -, rfl⟩ := updatePeer_eq_some.mp h
  rfl

/-- Only the key of a peer decides whether it finds room. -/
theorem findsRoom_congr {t : RoutingTable M} {peer peer' : PeerInfo} (h : peer.key = peer'.key) :
    t.FindsRoom peer ↔ t.FindsRoom peer' := by
  rw [RoutingTable.FindsRoom, RoutingTable.FindsRoom, RoutingTable.distance,
    RoutingTable.distance, h]

/-- `bootstrap` returns iff the local peer finds room. -/
theorem bootstrap_isSome_iff (hW : W.Faithful localInfo) {k : Kademlia M}
    (hself : k.routingTable.localInfo = localInfo) (addr : SocketAddr) :
    (bootstrap W k addr).isSome ↔ k.routingTable.FindsRoom localInfo := by
  obtain ⟨peer, hpeer⟩ := hW.peer.exists_bytes localInfo
  obtain ⟨info, hinfo, hkey⟩ := hW.self hpeer
  obtain ⟨⟨id, message⟩, hmessage⟩ :=
    Option.isSome_iff_exists.mp (prepareRequest_isSome hW k (.findNode peer))
  have hroom : (k.tick.updatePeer info).isSome ↔ k.tick.routingTable.FindsRoom info :=
    updatePeer_isSome_iff
  rw [findsRoom_congr hkey] at hroom
  simp only [bootstrap, prepareFindNodeMessage, hself, hpeer, hmessage, Option.bind_eq_bind,
    Option.bind_some, addPeer_of_read hinfo]
  rw [← show k.tick.routingTable = k.routingTable from rfl, ← hroom]
  cases k.tick.updatePeer info <;> rfl

/-- The peer of an entry of a `Nodes` list finds room and, if it is new, so does the local peer once
it is stored. -/
def NodeFits (W : KadWire) (k : Kademlia M) (peer : Peer) : Prop :=
  ∀ info, W.peer.fromBytes peer = some info → k.routingTable.FindsRoom info ∧
    (k.routingTable.isNew info = true → ∀ k', k.updatePeer info = some k' →
      k'.routingTable.FindsRoom k.routingTable.localInfo)

theorem handleNode_isSome_iff (hW : W.Faithful localInfo) {k : Kademlia M}
    (hself : k.routingTable.localInfo = localInfo) (peer : Peer) :
    (handleNode W k peer).isSome ↔ NodeFits W k peer := by
  unfold handleNode NodeFits
  cases hpeer : W.peer.fromBytes peer with
  | none => simp
  | some info =>
    have hroom : (k.updatePeer info).isSome ↔ k.routingTable.FindsRoom info :=
      updatePeer_isSome_iff
    simp only [addPeer_of_read hpeer, Option.some.injEq, forall_eq', ← hroom]
    cases hupdate : k.updatePeer info with
    | none => simp
    | some k₁ =>
      have hlocal := (updatePeer_localInfo hupdate).trans hself
      have hboot := bootstrap_isSome_iff hW hlocal info.address
      cases hnew : k.routingTable.isNew info with
      | false => simp
      | true =>
        simp only [Option.bind_eq_bind, Option.bind_some, if_true, Option.isSome_some, true_and,
          true_imp_iff, Option.some.injEq, forall_eq', hself, ← hboot]
        cases bootstrap W k₁ info.address <;> rfl

theorem nodesLoop_isSome_iff (hW : W.Faithful localInfo) {k : Kademlia M}
    (hself : k.routingTable.localInfo = localInfo) (nodes : Nodes) :
    ((nodesLoop W).run k nodes).isSome ↔ (nodesLoop W).Always (NodeFits W) k nodes := by
  refine (nodesLoop W).run_isSome_iff_always
    (P := fun s : Kademlia M => s.routingTable.localInfo = localInfo) (A := fun _ => True) ?_
    (fun s peer hs _ => handleNode_isSome_iff hW hs peer) hself fun _ _ => trivial
  intro s peer s' out hs hstep
  refine (Effects.node hstep).invariant
    (P := fun s : Kademlia M => s.routingTable.localInfo = localInfo) (fun _ h => h) ?_ hs
  intro s s' peer hs hupdate
  exact (updatePeer_localInfo hupdate).trans hs

/-- The closest peers of a node can be looked up. -/
def Looks (t : RoutingTable M) (node : PeerInfo) : Prop :=
  t.totalPeers ≤ defaultNPeers ∨
    ∀ name b, t.tree.lookup name = some b → name.length ≤ (t.distance node).getBinary.length

theorem lookup_isSome_iff (hW : W.Faithful localInfo) {k : Kademlia M}
    (hbucketed : k.routingTable.Bucketed) (node : PeerInfo) (request : Req) :
    (lookup W k node request).isSome ↔
      Looks k.routingTable node ∧ k.routingTable.FindsRoom node := by
  rw [Looks, ← RoutingTable.getClosestPeers_isSome_iff hbucketed, ← updatePeer_isSome_iff, lookup]
  cases k.routingTable.getClosestPeers node defaultNPeers with
  | none => simp
  | some closestPeers =>
    cases k.updatePeer node with
    | none => simp
    | some k₁ => simp [announce_isSome hW k₁ node request closestPeers]

/-- There is nothing to be unwrapped that does not decode, and room for the peers to be stored. -/
def Fits (W : KadWire) (k : Kademlia M) : Todo → Prop
  | .panic => False
  | .lost => True
  | .nothing => True
  | .add peer => k.routingTable.FindsRoom peer
  | .lookup node _ => Looks k.routingTable node ∧ k.routingTable.FindsRoom node
  | .pong _ _ => True
  | .meet nodes => (nodesLoop W).Always (NodeFits W) k nodes

/-- **What is to be done can be done** iff it fits. -/
theorem act_isSome_iff (hW : W.Faithful localInfo) {k : Kademlia M}
    (hself : k.routingTable.localInfo = localInfo) (hbucketed : k.routingTable.Bucketed)
    (todo : Todo) : (act W k todo).isSome ↔ Fits W k todo := by
  cases todo with
  | panic => exact iff_of_false nofun id
  | lost => exact iff_of_true rfl trivial
  | nothing => exact iff_of_true rfl trivial
  | add peer =>
    rw [act, Option.isSome_map]
    exact updatePeer_isSome_iff
  | lookup node request => exact lookup_isSome_iff hW hbucketed node request
  | pong sender request =>
    rw [act, Option.isSome_map]
    exact iff_of_true (preparePongResponse_isSome hW k sender request) trivial
  | meet nodes => exact nodesLoop_isSome_iff hW hself nodes

theorem Effects.act {k k' : Kademlia M} {todo : Todo} {out : List Outgoing}
    (h : act W k todo = some (k', out)) : Effects W k k' out := by
  cases todo with
  | panic => cases h
  | lost => exact .of_eq h
  | nothing => exact .of_eq h
  | add peer =>
    obtain ⟨k₁, hupdate, heq⟩ := Option.map_eq_some_iff.mp h
    cases heq
    exact .update hupdate
  | lookup node request =>
    obtain ⟨closestPeers, -, h⟩ := Option.bind_eq_some_iff.mp h
    obtain ⟨k₁, hupdate, h⟩ := Option.bind_eq_some_iff.mp h
    exact .trans (.update hupdate) (.announce h)
  | pong sender request =>
    obtain ⟨respMsg, -, heq⟩ := Option.map_eq_some_iff.mp h
    cases heq
    exact .send _ rfl
  | meet nodes => exact .nodesLoop h

theorem Effects.storeSender {k k' : Kademlia M} {plan : Plan} (h : storeSender k plan = some k') :
    Effects W k k' [] := by
  unfold Kademlia.storeSender at h
  split at h
  · exact .update h
  · cases h
    exact .done k

/-- **A message is handled** iff its sender finds room and then what is to be done fits. -/
theorem execute_isSome_iff (hW : W.Faithful localInfo) {k : Kademlia M}
    (hself : k.routingTable.localInfo = localInfo) (hbucketed : k.routingTable.Bucketed)
    (plan : Plan) : (execute W k plan).isSome ↔
      ∃ k', storeSender k plan = some k' ∧ Fits W k' plan.todo := by
  rw [execute]
  cases hstore : storeSender k plan with
  | none => simp
  | some k₁ =>
    obtain ⟨hbucketed', hself'⟩ := (Effects.storeSender (W := W) hstore).bucketed hbucketed
    simp [act_isSome_iff hW (hself'.trans hself) hbucketed']

theorem sizesLe_updatePeer {k k' : Kademlia M} {peer : PeerInfo} {n : Nat}
    (h : k.routingTable.SizesLe n) (hupdate : k.updatePeer peer = some k') :
    k'.routingTable.SizesLe (n + 1) := by
  obtain ⟨dest, -, rfl⟩ := updatePeer_eq_some.mp hupdate
  exact h.put peer _ dest

/-- An entry of a `Nodes` list adds at most its peer and the local one. -/
theorem sizesLe_handleNode {k k' : Kademlia M} {peer : Peer} {out : List Outgoing} {n : Nat}
    (h : k.routingTable.SizesLe n) (hstep : handleNode W k peer = some (k', out)) :
    k'.routingTable.SizesLe (n + 2) := by
  have hmono : ∀ {m}, m ≤ n + 2 → k'.routingTable.SizesLe m → k'.routingTable.SizesLe (n + 2) :=
    fun hm hk name b hb => (hk name b hb).trans hm
  rcases handleNode_cases hstep with ⟨-, rfl, -⟩ | ⟨info, -, ⟨-, hupdate, -⟩ |
    ⟨-, k₁, o, hupdate, hboot, -⟩⟩
  · exact hmono (n.le_add_right 2) h
  · exact hmono (Nat.succ_le_succ n.le_succ) (sizesLe_updatePeer h hupdate)
  · obtain ⟨message, bytes, self, -, -, hself, -⟩ := bootstrap_eq_some hboot
    have h₁ : k₁.routingTable.SizesLe (n + 1) := sizesLe_updatePeer h hupdate
    exact sizesLe_updatePeer (k := k₁.tick) h₁ hself

/-- A short list is handled while the buckets are far from full. -/
theorem nodesLoop_returns (hW : W.Faithful localInfo) {k : Kademlia M}
    (hself : k.routingTable.localInfo = localInfo) {n : Nat} (hn : k.routingTable.SizesLe n)
    {nodes : Nodes} (hlen : n + 2 * nodes.length < maxBucketLen) :
    ((nodesLoop W).run k nodes).isSome := by
  rw [nodesLoop_isSome_iff hW hself]
  clear hself
  induction nodes generalizing k n with
  | nil => trivial
  | cons peer nodes ih =>
    rw [List.length_cons] at hlen
    refine ⟨fun info _ => ⟨hn.findsRoom (by omega) info, fun _ k' hupdate => ?_⟩, ?_⟩
    · exact (sizesLe_updatePeer hn hupdate).findsRoom (by omega) _
    · intro k' out hstep
      exact ih (sizesLe_handleNode hn hstep) (by omega)

end Kademlia

/-! ## What `serde_json` writes -/

def peerJson (peer : PeerInfo) : List UInt8 :=
  "\x7b\"id\":\"".toUTF8.data.toList ++ peer.id.id.toUTF8.data.toList ++
    "\",\"key\":".toUTF8.data.toList ++ jsonArray peer.key.bytes.toList ++
    ",\"ip\":\"".toUTF8.data.toList ++ (String.ofList peer.ip.text).toUTF8.data.toList ++
    "\",\"port\":".toUTF8.data.toList ++ jsonNat peer.port.toNat ++
    ",\"address\":\"".toUTF8.data.toList ++ AddrText.standard.textBytes peer.address ++
    "\"\x7d".toUTF8.data.toList

/-- A variant of an enumeration with its data. -/
def jsonVariant (name : String) (data : List UInt8) : List UInt8 :=
  "\x7b\"".toUTF8.data.toList ++ name.toUTF8.data.toList ++ "\":".toUTF8.data.toList ++ data ++
    [125]

/-- An array of values written already. -/
def jsonList (items : List (List UInt8)) : List UInt8 :=
  91 :: [44].intercalate items ++ [93]

def rpcJson : RPC → List UInt8
  | .ping => "\"Ping\"".toUTF8.data.toList
  | .newPeer peer => jsonVariant "NewPeer" (jsonArray peer)
  | .store key value => jsonVariant "Store" (jsonList [jsonArray key.toList, jsonArray value])
  | .findNode peer => jsonVariant "FindNode" (jsonArray peer)
  | .findValue value => jsonVariant "FindValue" (jsonArray value)
  | .nodes nodes => jsonVariant "Nodes" (jsonList (nodes.map jsonArray))
  | .value value => jsonVariant "Value" (jsonArray value)
  | .saved key => jsonVariant "Saved" (jsonArray key.toList)
  | .pong peer => jsonVariant "Pong" (jsonArray peer)

def reqJson (req : Req) : List UInt8 :=
  "\x7b\"id\":".toUTF8.data.toList ++ jsonArray req.id.toList ++
    ",\"sender\":".toUTF8.data.toList ++ jsonArray req.sender ++
    ",\"payload\":".toUTF8.data.toList ++ jsonArray req.payload ++ [125]

def respJson (resp : Resp) : List UInt8 :=
  "\x7b\"request\":".toUTF8.data.toList ++ jsonArray resp.request ++
    ",\"receiver\":".toUTF8.data.toList ++ jsonArray resp.receiver ++
    ",\"payload\":".toUTF8.data.toList ++ jsonArray resp.payload ++ [125]

def kadJson : KadMessage → List UInt8
  | .request req => jsonVariant "Request" (jsonArray req)
  | .response resp => jsonVariant "Response" (jsonArray resp)
  | .kill => "\"Kill\"".toUTF8.data.toList

theorem peerJson_ne_nil (peer : PeerInfo) : peerJson peer ≠ [] := by
  intro h
  have hhead : (peerJson peer)[0]? = some 123 := rfl
  rw [h] at hhead
  cases hhead

/-- They differ in the first letter of the first name. -/
theorem reqJson_ne_respJson (req : Req) (resp : Resp) : reqJson req ≠ respJson resp := by
  intro h
  have hreq : (reqJson req)[2]? = some 105 := rfl
  have hresp : (respJson resp)[2]? = some 114 := rfl
  rw [h, hresp] at hreq
  exact absurd hreq (by decide)

/-- Peer discovery in JSON, reading the local peer and the values listed. -/
def KadWire.json (localInfo : PeerInfo) (peers : List PeerInfo) (rpcs : List RPC) (reqs : List Req)
    (resps : List Resp) : KadWire where
  peer := .reading peerJson (localInfo :: peers)
  rpc := .reading rpcJson rpcs
  req := .reading reqJson reqs
  resp := .reading respJson resps
  kad := .reading kadJson []

theorem KadWire.json_faithful (localInfo : PeerInfo) (peers : List PeerInfo) (rpcs : List RPC)
    (reqs : List Req) (resps : List Resp) :
    (KadWire.json localInfo peers rpcs reqs resps).Faithful localInfo where
  peer := ByteRep.reading_total _ _
  rpc := ByteRep.reading_total _ _
  req := ByteRep.reading_total _ _
  resp := ByteRep.reading_total _ _
  kad := ByteRep.reading_total _ _
  stable h h' := by
    obtain ⟨-, hwrite⟩ := ByteRep.reading_eq_some h
    cases h'
    rw [hwrite]
    exact h
  self h := by
    cases h
    exact ⟨localInfo, ByteRep.reading_head _ _ _, rfl⟩
  payload hreq hresp := by
    obtain ⟨-, hreq⟩ := ByteRep.reading_eq_some hreq
    obtain ⟨-, hresp⟩ := ByteRep.reading_eq_some hresp
    exact absurd (hreq.trans hresp.symm) (reqJson_ne_respJson _ _)

/-- The first response listed, which answers the first request listed, has the first RPC listed. -/
theorem Kademlia.readResponse_json (localInfo : PeerInfo) (peers : List PeerInfo) (rpc : RPC)
    (rpcs : List RPC) (req : Req) (reqs : List Req) {resp : Resp} (resps : List Resp)
    (hreq : resp.request = reqJson req) (hrpc : resp.payload = rpcJson rpc) :
    readResponse (.json localInfo peers (rpc :: rpcs) (req :: reqs) (resp :: resps))
      (respJson resp) = some (req, some rpc) := by
  simp [readResponse, KadWire.json, ByteRep.reading, hreq, hrpc]

end Udp2p
