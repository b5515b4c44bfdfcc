import Udp2p.Discovery.Membership

/-!
# Kademlia

The handlers of the peer discovery protocol. A request carries its sender and an RPC, a response the
request it answers and an RPC, all as bytes, so that a handler decodes step by step; `none` is a
panic: an `unwrap` of bytes that do not decode, or a routing table without room.

Clock readings and random keys are drawn from a stream in the state, one draw for each use. A
handler that meets the other kind of RPC hands its bytes to the other handler; `depth` bounds these
calls, and `none` at depth zero is an exhausted stack.

* `Effects` — what handlers are made of: updates of the routing table, messages sent, and entries of
  `Nodes` lists handled.
* `handleMessage_effects`, `effects_of_run` — every call of `handle_message`, and every run, is made
  of these.
-/

namespace Udp2p

abbrev Peer := List UInt8
abbrev Value := List UInt8
abbrev Nodes := List (List UInt8)
abbrev StoreKey := List.Vector UInt8 32
abbrev RPCBytes := List UInt8

inductive RPC where
  | ping
  | newPeer (peer : Peer)
  | store (key : StoreKey) (value : Value)
  | findNode (peer : Peer)
  | findValue (value : Value)
  | nodes (nodes : Nodes)
  | value (value : Value)
  | saved (key : StoreKey)
  | pong (peer : Peer)
  deriving DecidableEq

structure Req where
  id : InnerKey
  sender : Peer
  payload : RPCBytes
  deriving DecidableEq

structure Resp where
  request : RequestBytes
  receiver : Peer
  payload : RPCBytes
  deriving DecidableEq

/-- The serialisers peer discovery uses. -/
structure KadWire where
  peer : ByteRep PeerInfo
  rpc : ByteRep RPC
  req : ByteRep Req
  resp : ByteRep Resp
  kad : ByteRep KadMessage

def Req.toComponents (W : KadWire) (r : Req) : InnerKey × Option PeerInfo × Option RPC :=
  (r.id, W.peer.fromBytes r.sender, W.rpc.fromBytes r.payload)

def Resp.toComponents (W : KadWire) (r : Resp) : Option Req × Option PeerInfo × Option RPC :=
  (W.req.fromBytes r.request, W.peer.fromBytes r.receiver, W.rpc.fromBytes r.payload)

/-- `DEFAULT_N_PEERS`. -/
def defaultNPeers : Nat := 8

/-- What the environment supplies: a clock reading and a random key. -/
structure Draw where
  now : Nat
  key : InnerKey

/-- No function reads or writes `pending`. -/
structure Kademlia (M : Type) where
  routingTable : RoutingTable M
  pending : HashSet InnerKey
  draws : Nat → Draw

/-- A message put on the channel to the transport. Beside it stand the key a request was prepared
with, and the id of the entry of a `Nodes` list whose handling sent the message. -/
structure Outgoing where
  dst : SocketAddr
  message : Message
  key : Option InnerKey := none
  cause : Option PeerId := none
  deriving DecidableEq

namespace Kademlia

variable {M : Type} [LinkedHashMap PeerId PeerInfo M] (W : KadWire)

/-- The first draw is spent. -/
def tick (k : Kademlia M) : Kademlia M := { k with draws := fun n => k.draws (n + 1) }

/-- `self.routing_table.update_peer(&peer, 0)`. -/
def updatePeer (k : Kademlia M) (peer : PeerInfo) : Option (Kademlia M) := do
  let (t, _) ← k.routingTable.updatePeer peer 0 (k.draws 0).now
  return { k.tick with routingTable := t }

def addPeer (k : Kademlia M) (peer : Peer) : Option (Kademlia M) := do
  let peer ← W.peer.fromBytes peer
  k.updatePeer peer

/-! ## Messages -/

def requestMessage (req : Req) : Option Message := do
  let bytes ← W.req.asBytes req
  let msg ← W.kad.asBytes (.request bytes)
  return { head := .request, msg }

def responseMessage (resp : Resp) : Option Message := do
  let bytes ← W.resp.asBytes resp
  let msg ← W.kad.asBytes (.response bytes)
  return { head := .response, msg }

/-- A request of the local node, under a random key. -/
def prepareRequest (k : Kademlia M) (rpc : RPC) : Option (InnerKey × Message) := do
  let payload ← W.rpc.asBytes rpc
  let sender ← W.peer.asBytes k.routingTable.localInfo
  let req : Req := { id := (k.draws 0).key, sender, payload }
  let msg ← requestMessage W req
  return (req.id, msg)

def prepareFindNodeMessage (k : Kademlia M) (peer : PeerInfo) (req : Option Req) :
    Option (InnerKey × Message) :=
  match req with
  | some optReq => do
    let message ← requestMessage W optReq
    return (optReq.id, message)
  | none => do
    let bytes ← W.peer.asBytes peer
    prepareRequest W k (.findNode bytes)

def prepareNewPeerMessage (k : Kademlia M) (peer : PeerInfo) : Option (InnerKey × Message) := do
  let bytes ← W.peer.asBytes peer
  prepareRequest W k (.newPeer bytes)

def prepareNodesResponseMessage (k : Kademlia M) (req : Req) (nodes : List PeerInfo) :
    Option Message := do
  let nodesVec ← nodes.mapM W.peer.asBytes
  let request ← W.req.asBytes req
  let receiver ← W.peer.asBytes k.routingTable.localInfo
  let payload ← W.rpc.asBytes (.nodes nodesVec)
  responseMessage W { request, receiver, payload }

def preparePongResponse (k : Kademlia M) (peer : PeerInfo) (req : Req) : Option Message := do
  let info ← W.peer.asBytes k.routingTable.localInfo
  let request ← W.req.asBytes req
  let receiver ← W.peer.asBytes peer
  let payload ← W.rpc.asBytes (.pong info)
  responseMessage W { request, receiver, payload }

/-! ## Handlers -/

def bootstrap (k : Kademlia M) (bootstrap : SocketAddr) :
    Option (Kademlia M × List Outgoing) := do
  let localInfo := k.routingTable.localInfo
  let (id, message) ← prepareFindNodeMessage W k localInfo none
  let peer ← W.peer.asBytes localInfo
  let k ← addPeer W k.tick peer
  return (k, [{ dst := bootstrap, message, key := some id }])

/-- The loop body for one entry of a `Nodes` list. -/
def handleNode (k : Kademlia M) (peer : Peer) : Option (Kademlia M × List Outgoing) :=
  match W.peer.fromBytes peer with
  | some info => do
    -- asked before the peer is added
    let new := k.routingTable.isNew info
    let k ← addPeer W k peer
    if new then
      let (k, out) ← bootstrap W k info.address
      return (k, out.map fun o => { o with cause := some info.id })
    else return (k, [])
  | none => some (k, [])

/-- `nodes.iter().for_each(..)`. -/
def nodesLoop : Machine (Kademlia M) Peer Outgoing := ⟨handleNode W⟩

/-- The messages `lookup_node` sends: the peers found to the node looked up, and that node to these
peers. -/
def announce (k : Kademlia M) (node : PeerInfo) (req : Req) (closestPeers : List PeerInfo) :
    Option (Kademlia M × List Outgoing) := do
  let (id, msg) ← prepareNewPeerMessage W k node
  let respMsg ← prepareNodesResponseMessage W k req closestPeers
  return (k.tick, { dst := node.address, message := respMsg } ::
    closestPeers.map fun peer => { dst := peer.address, message := msg, key := some id })

def lookupNode (k : Kademlia M) (node : PeerInfo) (req : Req) :
    Option (Kademlia M × List Outgoing) := do
  let closestPeers ← k.routingTable.getClosestPeers node defaultNPeers
  let k ← (match W.peer.asBytes node with
    | some bytes => addPeer W k bytes
    | none => some k)
  announce W k node req closestPeers

mutual

def handleRequest (depth : Nat) (k : Kademlia M) (req : RequestBytes) :
    Option (Kademlia M × List Outgoing) :=
  match depth with
  | 0 => none
  | depth + 1 =>
    match W.req.fromBytes req with
    | some request => do
      let (_, sender, rpc) := request.toComponents W
      let sender ← sender
      let bytes ← W.peer.asBytes sender
      let k ← addPeer W k bytes
      -- the sender is stored by the time the RPC is known to decode
      match ← rpc with
      | .findNode node =>
        match W.peer.fromBytes node with
        | some peer => lookupNode W k peer request
        | none => return (k, [])
      | .newPeer peer =>
        let k ← addPeer W k peer
        return (k, [])
      | .findValue _ => return (k, [])
      | .store _ _ => return (k, [])
      | .ping =>
        let respMsg ← preparePongResponse W k sender request
        return (k, [{ dst := sender.address, message := respMsg }])
      | _ => handleResponse depth k req
    | none => some (k, [])

def handleResponse (depth : Nat) (k : Kademlia M) (resp : ResponseBytes) :
    Option (Kademlia M × List Outgoing) :=
  match depth with
  | 0 => none
  | depth + 1 =>
    match W.resp.fromBytes resp with
    | some rm =>
      match rm.toComponents W with
      | (some _, _, rpc) => do
        match ← rpc with
        | .nodes nodes => (nodesLoop W).run k nodes
        | .value _ => return (k, [])
        | .saved _ => return (k, [])
        | .pong peer =>
          let k ← addPeer W k peer
          return (k, [])
        | _ => handleRequest depth k resp
      | (none, _, _) => some (k, [])
    | none => some (k, [])

end

def handleMessage (depth : Nat) (k : Kademlia M) (message : KadMessage) :
    Option (Kademlia M × List Outgoing) :=
  match message with
  | .request req => handleRequest W depth k req
  | .response resp => handleResponse W depth k resp
  | .kill => some (k, [])

/-- What happens to a Kademlia instance. -/
inductive Event where
  | bootstrap (addr : SocketAddr)
  | handleMessage (message : KadMessage)
  deriving DecidableEq

def machine (depth : Nat) : Machine (Kademlia M) Event Outgoing where
  step k
    | .bootstrap addr => bootstrap W k addr
    | .handleMessage message => handleMessage W depth k message

def new (localInfo : PeerInfo) (now : Nat) (pending : HashSet InnerKey) (draws : Nat → Draw) :
    Kademlia M where
  routingTable := RoutingTable.new localInfo now
  pending := pending
  draws := draws

/-! ## What handlers are made of -/

/-- The steps of the handlers and how they follow each other. Only the handling of an entry of a
`Nodes` list gives its messages a cause. -/
inductive Effects : Kademlia M → Kademlia M → List Outgoing → Prop where
  | done (k : Kademlia M) : Effects k k []
  | tick (k : Kademlia M) : Effects k k.tick []
  | update {k k' : Kademlia M} {peer : PeerInfo} (h : k.updatePeer peer = some k') : Effects k k' []
  | send (k : Kademlia M) {o : Outgoing} (h : o.cause = none) : Effects k k [o]
  | node {k k' : Kademlia M} {peer : Peer} {out : List Outgoing}
      (h : handleNode W k peer = some (k', out)) : Effects k k' out
  | trans {k k' k'' : Kademlia M} {out out' : List Outgoing} (h : Effects k k' out)
      (h' : Effects k' k'' out') : Effects k k'' (out ++ out')

variable {W}

theorem Effects.of_eq {k k' : Kademlia M} {out : List Outgoing}
    (h : some (k, []) = some (k', out)) : Effects W k k' out := by
  cases h
  exact .done _

theorem updatePeer_eq (k : Kademlia M) (peer : PeerInfo) : k.updatePeer peer =
    (k.routingTable.destination peer).map fun dest =>
      { k.tick with routingTable := k.routingTable.put peer (k.draws 0).now dest } := by
  rw [updatePeer, RoutingTable.updatePeer_eq]
  cases k.routingTable.destination peer <;> rfl

theorem updatePeer_eq_some {k k' : Kademlia M} {peer : PeerInfo} : k.updatePeer peer = some k' ↔
    ∃ dest, k.routingTable.destination peer = some dest ∧
      { k.tick with routingTable := k.routingTable.put peer (k.draws 0).now dest } = k' := by
  rw [updatePeer_eq, Option.map_eq_some_iff]

theorem addPeer_eq_some {k k' : Kademlia M} {peer : Peer} : addPeer W k peer = some k' ↔
    ∃ info, W.peer.fromBytes peer = some info ∧ k.updatePeer info = some k' :=
  Option.bind_eq_some_iff

theorem Effects.addPeer {k k' : Kademlia M} {peer : Peer} (h : addPeer W k peer = some k') :
    Effects W k k' [] := by
  obtain ⟨info, -, h⟩ := addPeer_eq_some.mp h
  exact .update h

/-- Messages without a cause, one after another. -/
theorem Effects.sendAll (k : Kademlia M) {out : List Outgoing} (h : ∀ o ∈ out, o.cause = none) :
    Effects W k k out := by
  induction out with
  | nil => exact .done k
  | cons o out ih =>
    have hrest := ih fun o' ho' => h o' (List.mem_cons_of_mem o ho')
    exact .trans (.send k (h o List.mem_cons_self)) hrest

omit [LinkedHashMap PeerId PeerInfo M] in
/-- A request is written with its RPC, under the key drawn. -/
theorem prepareRequest_eq_some {k : Kademlia M} {rpc : RPC} {id : InnerKey} {message : Message}
    (h : prepareRequest W k rpc = some (id, message)) : ∃ req, requestMessage W req = some message ∧
      W.rpc.asBytes rpc = some req.payload ∧ id = (k.draws 0).key := by
  obtain ⟨payload, hpayload, h⟩ := Option.bind_eq_some_iff.mp h
  obtain ⟨sender, -, h⟩ := Option.bind_eq_some_iff.mp h
  obtain ⟨msg, hmsg, heq⟩ := Option.bind_eq_some_iff.mp h
  cases heq
  exact ⟨_, hmsg, hpayload, rfl⟩

omit [LinkedHashMap PeerId PeerInfo M] in
/-- The response comes first, then one request for each peer listed. -/
theorem announce_eq_some {k k' : Kademlia M} {node : PeerInfo} {req : Req}
    {closestPeers : List PeerInfo} {out : List Outgoing}
    (h : announce W k node req closestPeers = some (k', out)) : ∃ id msg respMsg,
      prepareNewPeerMessage W k node = some (id, msg) ∧
      prepareNodesResponseMessage W k req closestPeers = some respMsg ∧ k' = k.tick ∧
      out = { dst := node.address, message := respMsg } ::
        closestPeers.map fun peer => { dst := peer.address, message := msg, key := some id } := by
  obtain ⟨⟨id, msg⟩, hmsg, h⟩ := Option.bind_eq_some_iff.mp h
  obtain ⟨respMsg, hresp, heq⟩ := Option.bind_eq_some_iff.mp h
  cases heq
  exact ⟨id, msg, respMsg, hmsg, hresp, rfl, rfl⟩

/-- **`bootstrap`** draws a key, sends one request under it, and adds the local peer as it reads it
back. -/
theorem bootstrap_eq_some {k k' : Kademlia M} {addr : SocketAddr} {out : List Outgoing}
    (h : bootstrap W k addr = some (k', out)) : ∃ message peer info,
      W.peer.asBytes k.routingTable.localInfo = some peer ∧ W.peer.fromBytes peer = some info ∧
      k.tick.updatePeer info = some k' ∧
      out = [{ dst := addr, message, key := some (k.draws 0).key }] := by
  obtain ⟨⟨id, message⟩, hprepare, h⟩ := Option.bind_eq_some_iff.mp h
  obtain ⟨peer, hpeer, h⟩ := Option.bind_eq_some_iff.mp h
  obtain ⟨k₁, hadd, heq⟩ := Option.bind_eq_some_iff.mp h
  cases heq
  obtain ⟨info, hinfo, hupdate⟩ := addPeer_eq_some.mp hadd
  obtain ⟨bytes, -, hprepare⟩ := Option.bind_eq_some_iff.mp hprepare
  obtain ⟨req, -, -, rfl⟩ := prepareRequest_eq_some hprepare
  exact ⟨_, peer, info, hpeer, hinfo, hupdate, rfl⟩

theorem Effects.bootstrap {k k' : Kademlia M} {addr : SocketAddr} {out : List Outgoing}
    (h : bootstrap W k addr = some (k', out)) : Effects W k k' out := by
  obtain ⟨message, peer, info, -, -, hupdate, rfl⟩ := bootstrap_eq_some h
  exact .trans (.trans (.tick k) (.update hupdate)) (.send k' rfl)

/-- **One entry of a `Nodes` list**: one that does not decode does nothing; a known peer is updated;
a new one is added, and asked for its peers. -/
theorem handleNode_cases {k k' : Kademlia M} {peer : Peer} {out : List Outgoing}
    (h : handleNode W k peer = some (k', out)) :
    W.peer.fromBytes peer = none ∧ k' = k ∧ out = [] ∨
    ∃ info, W.peer.fromBytes peer = some info ∧
      (k.routingTable.isNew info = false ∧ k.updatePeer info = some k' ∧ out = [] ∨
        k.routingTable.isNew info = true ∧ ∃ k₁ o, k.updatePeer info = some k₁ ∧
          Kademlia.bootstrap W k₁ info.address = some (k', [o]) ∧
          out = [{ o with cause := some info.id }]) := by
  unfold handleNode at h
  split at h
  · next info hinfo =>
    obtain ⟨k₁, hadd, h⟩ := Option.bind_eq_some_iff.mp h
    obtain ⟨info', hinfo', hupdate⟩ := addPeer_eq_some.mp hadd
    rw [hinfo, Option.some.injEq] at hinfo'
    subst hinfo'
    refine Or.inr ⟨info, hinfo, ?_⟩
    split at h
    · next hnew =>
      obtain ⟨⟨k₂, out'⟩, hboot, heq⟩ := Option.bind_eq_some_iff.mp h
      cases heq
      obtain ⟨message, bytes, self, -, -, -, rfl⟩ := bootstrap_eq_some hboot
      exact Or.inr ⟨hnew, k₁, _, hupdate, hboot, rfl⟩
    · next hold =>
      cases h
      exact Or.inl ⟨Bool.eq_false_of_not_eq_true hold, hupdate, rfl⟩
  · next hnone =>
    cases h
    exact Or.inl ⟨hnone, rfl, rfl⟩

theorem Effects.nodesLoop {k k' : Kademlia M} {nodes : Nodes} {out : List Outgoing}
    (h : (nodesLoop W).run k nodes = some (k', out)) : Effects W k k' out := by
  induction nodes generalizing k out with
  | nil =>
    exact .of_eq h
  | cons peer nodes ih =>
    obtain ⟨k₁, o, out', hstep, hrun, rfl⟩ := Machine.run_cons_eq_some _ |>.mp h
    exact .trans (.node hstep) (ih hrun)

theorem Effects.announce {k k' : Kademlia M} {node : PeerInfo} {req : Req}
    {closestPeers : List PeerInfo} {out : List Outgoing}
    (h : announce W k node req closestPeers = some (k', out)) : Effects W k k' out := by
  obtain ⟨id, msg, respMsg, -, -, rfl, rfl⟩ := announce_eq_some h
  refine .trans (.tick k) (.sendAll k.tick fun o ho => ?_)
  rcases List.mem_cons.mp ho with rfl | ho
  · rfl
  · obtain ⟨peer, -, rfl⟩ := List.mem_map.mp ho
    rfl

theorem Effects.lookupNode {k k' : Kademlia M} {node : PeerInfo} {req : Req} {out : List Outgoing}
    (h : lookupNode W k node req = some (k', out)) : Effects W k k' out := by
  obtain ⟨closestPeers, -, h⟩ := Option.bind_eq_some_iff.mp h
  obtain ⟨k₁, hadd, h⟩ := Option.bind_eq_some_iff.mp h
  have hupdate : Effects W k k₁ [] := by
    split at hadd
    · exact .addPeer hadd
    · cases hadd
      exact .done _
  exact .trans hupdate (.announce h)

/-- By induction on the depth: a handler calls the other one with one level less. -/
theorem handlers_effects (depth : Nat) (k k' : Kademlia M) (bytes : List UInt8)
    (out : List Outgoing) :
    (handleRequest W depth k bytes = some (k', out) → Effects W k k' out) ∧
    (handleResponse W depth k bytes = some (k', out) → Effects W k k' out) := by
  induction depth generalizing k with
  | zero => exact ⟨nofun, nofun⟩
  | succ depth ih =>
    constructor
    · intro h
      rw [handleRequest] at h
      split at h
      · next request _ =>
        obtain ⟨sender, -, h⟩ := Option.bind_eq_some_iff.mp h
        obtain ⟨peer, -, h⟩ := Option.bind_eq_some_iff.mp h
        obtain ⟨k₁, hadd, h⟩ := Option.bind_eq_some_iff.mp h
        obtain ⟨rpc, -, h⟩ := Option.bind_eq_some_iff.mp h
        have hrest : Effects W k₁ k' out := by
          split at h
          · next node =>
            split at h
            · exact .lookupNode h
            · exact .of_eq h
          · next peer =>
            obtain ⟨k₂, hadd', heq⟩ := Option.bind_eq_some_iff.mp h
            cases heq
            exact .addPeer hadd'
          · exact .of_eq h
          · exact .of_eq h
          · obtain ⟨respMsg, -, heq⟩ := Option.bind_eq_some_iff.mp h
            cases heq
            exact .send _ rfl
          · exact (ih k₁).2 h
        exact .trans (.addPeer hadd) hrest
      · exact .of_eq h
    · intro h
      rw [handleResponse] at h
      split at h
      · split at h
        · obtain ⟨rpc, -, h⟩ := Option.bind_eq_some_iff.mp h
          split at h
          · exact .nodesLoop h
          · exact .of_eq h
          · exact .of_eq h
          · obtain ⟨k₁, hadd, heq⟩ := Option.bind_eq_some_iff.mp h
            cases heq
            exact .addPeer hadd
          · exact (ih k).1 h
        · exact .of_eq h
      · exact .of_eq h

theorem handleMessage_effects {depth : Nat} {k k' : Kademlia M} {message : KadMessage}
    {out : List Outgoing} (h : handleMessage W depth k message = some (k', out)) :
    Effects W k k' out := by
  cases message with
  | request req => exact (handlers_effects depth k k' req out).1 h
  | response resp => exact (handlers_effects depth k k' resp out).2 h
  | kill =>
    exact .of_eq h

theorem step_effects {depth : Nat} {k k' : Kademlia M} {e : Event} {out : List Outgoing}
    (h : (machine W depth).step k e = some (k', out)) : Effects W k k' out := by
  cases e with
  | bootstrap addr => exact .bootstrap h
  | handleMessage message => exact handleMessage_effects h

/-- A state predicate that updates and draws keep is kept by every effect. -/
theorem Effects.invariant {P : Kademlia M → Prop} (htick : ∀ k : Kademlia M, P k → P k.tick)
    (hupdate : ∀ (k k' : Kademlia M) peer, P k → k.updatePeer peer = some k' → P k')
    {k k' : Kademlia M} {out : List Outgoing} (h : Effects W k k' out) (hk : P k) : P k' := by
  induction h with
  | done k => exact hk
  | tick k => exact htick k hk
  | update h => exact hupdate _ _ _ hk h
  | send k h => exact hk
  | node h =>
    rcases handleNode_cases h with ⟨-, rfl, -⟩ | ⟨info, -, ⟨-, h, -⟩ | ⟨-, k₁, o, h, hboot, -⟩⟩
    · exact hk
    · exact hupdate _ _ _ hk h
    · obtain ⟨message, peer, self, -, -, hself, -⟩ := bootstrap_eq_some hboot
      exact hupdate _ _ _ (htick k₁ (hupdate _ _ _ hk h)) hself
  | trans h h' ih ih' => exact ih' (ih hk)

/-- Of a table on the way: well-formed, and the table of the same local peer. -/
theorem Effects.bucketed {k k' : Kademlia M} {out : List Outgoing} (h : Effects W k k' out)
    (hk : k.routingTable.Bucketed) :
    k'.routingTable.Bucketed ∧ k'.routingTable.localInfo = k.routingTable.localInfo := by
  refine h.invariant (P := fun s => s.routingTable.Bucketed ∧
    s.routingTable.localInfo = k.routingTable.localInfo) (fun _ hs => hs) ?_ ⟨hk, rfl⟩
  intro s s' peer hs hupdate
  obtain ⟨dest, hdest, rfl⟩ := updatePeer_eq_some.mp hupdate
  exact ⟨hs.1.put hdest _, hs.2⟩

/-- **Runs** are made of effects. -/
theorem effects_of_run {depth : Nat} {k k' : Kademlia M} {events : List Event}
    {outs : List Outgoing} (hrun : (machine W depth).run k events = some (k', outs)) :
    Effects W k k' outs := by
  induction events generalizing k outs with
  | nil =>
    cases hrun
    exact .done _
  | cons e events ih =>
    obtain ⟨k₁, o, out', hstep, hrest, rfl⟩ := (machine W depth).run_cons_eq_some.mp hrun
    exact .trans (step_effects hstep) (ih hrest)

/-- In every state reached, the table is well-formed and that of the local peer. -/
theorem bucketed_of_run {depth now : Nat} {localInfo : PeerInfo} {pending : HashSet InnerKey}
    {draws : Nat → Draw} {events : List Event} {k : Kademlia M} {outs : List Outgoing}
    (hrun : (machine W depth).run (new localInfo now pending draws) events = some (k, outs)) :
    k.routingTable.Bucketed ∧ k.routingTable.localInfo = localInfo :=
  (effects_of_run hrun).bucketed (RoutingTable.bucketed_new localInfo now)

end Kademlia

end Udp2p
