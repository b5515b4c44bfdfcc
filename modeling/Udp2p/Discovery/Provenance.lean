import Udp2p.Discovery.Lookup

/-!
# Where do peers come from?

A Kademlia instance learns of peers from the messages it handles, and tells others of peers in the
messages it sends. It makes none up: whatever set of peers the local one belongs to, if the messages
handled speak of peers of the set only, so do the routing table and the messages sent.

* `Plan.About`, `Vouched` — what it means to speak of peers of a set only.
* `Knows.execute`, `discovers_handleMessage` — one message.
* `peers_come_from_messages` — every run.
-/

namespace Udp2p

namespace RoutingTable

variable {M : Type} [LinkedHashMap PeerId PeerInfo M] {C : Set PeerInfo}

/-- All peers stored are of the set. -/
def Within (t : RoutingTable M) (C : Set PeerInfo) : Prop :=
  ∀ name b e, t.tree.lookup name = some b → e ∈ b.entries → e.2 ∈ C

theorem within_new {localInfo : PeerInfo} (h : localInfo ∈ C) (now : Nat) :
    (new localInfo now : RoutingTable M).Within C := by
  intro name b e hb he
  rw [lookup_new] at hb
  split at hb
  · cases hb
    rw [entries_first, List.mem_singleton] at he
    rw [he]
    exact h
  · cases hb

theorem Within.put {t : RoutingTable M} (h : t.Within C) {peer : PeerInfo} (hpeer : peer ∈ C)
    (now : Nat) (k : List Char) : (t.put peer now k).Within C := by
  intro name b e hb he
  rw [lookup_put] at hb
  split at hb
  · cases hb
    rcases KBucket.mem_entries_upsert.mp he with rfl | ⟨-, hold⟩
    · exact hpeer
    · obtain ⟨b', hb', he'⟩ := mem_bucketAt hold
      exact h _ b' e hb' he'
  · exact h name b e hb he

theorem Within.mem_getAllPeers {t : RoutingTable M} (h : t.Within C) {peer : PeerInfo}
    (hpeer : peer ∈ t.getAllPeers) : peer ∈ C := by
  rw [getAllPeers, List.mem_flatten] at hpeer
  obtain ⟨l, hl, hpeer⟩ := hpeer
  obtain ⟨⟨name, b⟩, hb, rfl⟩ := List.mem_map.mp hl
  obtain ⟨e, he, rfl⟩ := List.mem_map.mp hpeer
  exact h name b e (AList.lookup_eq_some_iff.mpr hb) he

theorem Within.mem_getClosestPeers {t : RoutingTable M} (h : t.Within C) {node : PeerInfo}
    {count : Nat} {closestPeers : List PeerInfo}
    (hclosest : t.getClosestPeers node count = some closestPeers) {peer : PeerInfo}
    (hpeer : peer ∈ closestPeers) : peer ∈ C := by
  obtain ⟨-, rest, hperm⟩ := perm_of_getClosestPeers hclosest
  apply h.mem_getAllPeers
  exact hperm.subset (List.mem_append_left _ hpeer)

end RoutingTable

/-- The peers of a set are read back, and so are requests, responses and what they carry. -/
structure KadWire.Keeps (W : KadWire) (C : Set PeerInfo) : Prop where
  peer : ∀ p ∈ C, ∀ bytes, W.peer.asBytes p = some bytes → W.peer.fromBytes bytes = some p
  rpc : W.rpc.Lawful
  req : W.req.Lawful
  resp : W.resp.Lawful
  kad : W.kad.Lawful

theorem KadWire.listed_keeps {peers : List PeerInfo} (h : (peers.map peerJson).Nodup) :
    (KadWire.listed peers).Keeps {peer | peer ∈ peers} where
  peer p hp bytes hwrite := by
    cases hwrite
    exact ByteRep.reading_of_nodup h hp
  rpc := ByteRep.ofFormat_lawful _
  req := ByteRep.ofFormat_lawful _
  resp := ByteRep.ofFormat_lawful _
  kad := ByteRep.ofFormat_lawful _

namespace Kademlia

variable {M : Type} [LinkedHashMap PeerId PeerInfo M] (W : KadWire) (C : Set PeerInfo)

/-- What is to be done concerns peers of the set. -/
def Todo.About : Todo → Prop
  | .panic => False
  | .lost => True
  | .nothing => True
  | .add peer => peer ∈ C
  | .lookup node _ => node ∈ C
  | .pong sender _ => sender ∈ C
  | .meet nodes => ∀ bytes ∈ nodes, ∀ info, W.peer.fromBytes bytes = some info → info ∈ C

/-- A message asks for things that concern peers of the set, in the name of one of them. -/
structure Plan.About (plan : Plan) : Prop where
  sender : ∀ peer, plan.sender = some peer → peer ∈ C
  todo : plan.todo.About W C

/-- A message speaks of peers of the set only. -/
def Vouched (message : Message) : Prop :=
  ∀ kad, W.kad.fromBytes message.msg = some kad → (planOf W kad).About W C

/-- A message reads as one with this plan. -/
def Asks (message : Message) (plan : Plan) : Prop :=
  ∃ kad, W.kad.fromBytes message.msg = some kad ∧ planOf W kad = plan

variable {W C} {localInfo : PeerInfo}

theorem Asks.vouched {message : Message} {plan : Plan} (h : Asks W message plan)
    (habout : plan.About W C) : Vouched W C message := by
  obtain ⟨kad, hkad, rfl⟩ := h
  intro kad' hkad'
  rw [hkad, Option.some.injEq] at hkad'
  exact hkad' ▸ habout

/-! ## What is sent -/

/-- A request asks for what its RPC does. -/
theorem asks_request (hC : W.Keeps C) {req : Req} {message : Message}
    (h : requestMessage W req = some message) {sender : PeerInfo}
    (hsender : W.peer.fromBytes req.sender = some sender) {rpc : RPC}
    (hrpc : W.rpc.asBytes rpc = some req.payload) {todo : Todo}
    (htodo : requested W req sender rpc = some todo) : Asks W message ⟨some sender, todo⟩ := by
  obtain ⟨bytes, hbytes, h⟩ := Option.bind_eq_some_iff.mp h
  obtain ⟨msg, hmsg, heq⟩ := Option.bind_eq_some_iff.mp h
  cases heq
  refine ⟨.request bytes, hC.kad _ _ hmsg, ?_⟩
  simp only [planOf, requestPlan, requestTodo, hC.req _ _ hbytes, hsender, hC.rpc _ _ hrpc, htodo]

/-- A response asks for what its RPC does. -/
theorem asks_response (hC : W.Keeps C) {resp : Resp} {message : Message}
    (h : responseMessage W resp = some message) {req : Req}
    (hreq : W.req.asBytes req = some resp.request) {rpc : RPC}
    (hrpc : W.rpc.asBytes rpc = some resp.payload) {todo : Todo}
    (htodo : responded W rpc = some todo) : Asks W message ⟨none, todo⟩ := by
  obtain ⟨bytes, hbytes, h⟩ := Option.bind_eq_some_iff.mp h
  obtain ⟨msg, hmsg, heq⟩ := Option.bind_eq_some_iff.mp h
  cases heq
  refine ⟨.response bytes, hC.kad _ _ hmsg, ?_⟩
  have hread : readResponse W bytes = some (req, some rpc) := by
    simp [readResponse, hC.resp _ _ hbytes, hC.req _ _ hreq, hC.rpc _ _ hrpc]
  simp only [planOf, responsePlan, hread, htodo]

omit [LinkedHashMap PeerId PeerInfo M] in
/-- A request of the local peer. -/
theorem asks_prepareRequest (hC : W.Keeps C) {k : Kademlia M}
    (hself : k.routingTable.localInfo ∈ C) {rpc : RPC} {id : InnerKey} {message : Message}
    (h : prepareRequest W k rpc = some (id, message)) {todo : Req → Todo}
    (htodo : ∀ req, requested W req k.routingTable.localInfo rpc = some (todo req)) :
    ∃ req, Asks W message ⟨some k.routingTable.localInfo, todo req⟩ := by
  obtain ⟨payload, hpayload, h⟩ := Option.bind_eq_some_iff.mp h
  obtain ⟨sender, hsender, h⟩ := Option.bind_eq_some_iff.mp h
  obtain ⟨msg, hmsg, heq⟩ := Option.bind_eq_some_iff.mp h
  cases heq
  exact ⟨_, asks_request hC hmsg (hC.peer _ hself _ hsender) hpayload (htodo _)⟩

omit [LinkedHashMap PeerId PeerInfo M] in
theorem asks_prepareFindNode (hC : W.Keeps C) {k : Kademlia M}
    (hself : k.routingTable.localInfo ∈ C) {peer : PeerInfo} (hpeer : peer ∈ C) {id : InnerKey}
    {message : Message} (h : prepareFindNodeMessage W k peer none = some (id, message)) :
    ∃ req, Asks W message ⟨some k.routingTable.localInfo, .lookup peer req⟩ := by
  obtain ⟨bytes, hbytes, h⟩ := Option.bind_eq_some_iff.mp h
  apply asks_prepareRequest hC hself h
  intro req
  rw [requested, hC.peer _ hpeer _ hbytes]
  rfl

omit [LinkedHashMap PeerId PeerInfo M] in
theorem asks_prepareNewPeer (hC : W.Keeps C) {k : Kademlia M}
    (hself : k.routingTable.localInfo ∈ C) {peer : PeerInfo} (hpeer : peer ∈ C) {id : InnerKey}
    {message : Message} (h : prepareNewPeerMessage W k peer = some (id, message)) :
    Asks W message ⟨some k.routingTable.localInfo, .add peer⟩ := by
  obtain ⟨bytes, hbytes, h⟩ := Option.bind_eq_some_iff.mp h
  have hadds : ∀ req, requested W req k.routingTable.localInfo (.newPeer bytes) =
      some (.add peer) := by
    intro req
    rw [requested, hC.peer _ hpeer _ hbytes]
    rfl
  obtain ⟨-, hasks⟩ := asks_prepareRequest hC hself h hadds
  exact hasks

omit [LinkedHashMap PeerId PeerInfo M] in
theorem asks_prepareNodesResponse (hC : W.Keeps C) {k : Kademlia M} {req : Req}
    {nodes : List PeerInfo} {message : Message}
    (h : prepareNodesResponseMessage W k req nodes = some message) : ∃ nodesVec,
      nodes.mapM W.peer.asBytes = some nodesVec ∧ Asks W message ⟨none, .meet nodesVec⟩ := by
  obtain ⟨resp, nodesVec, hresp, hreq, hpayload, hmap⟩ := prepareNodesResponse_eq_some h
  exact ⟨nodesVec, hmap, asks_response hC hresp hreq hpayload rfl⟩

omit [LinkedHashMap PeerId PeerInfo M] in
theorem asks_preparePong (hC : W.Keeps C) {k : Kademlia M}
    (hself : k.routingTable.localInfo ∈ C) {peer : PeerInfo} {req : Req} {message : Message}
    (h : preparePongResponse W k peer req = some message) :
    Asks W message ⟨none, .add k.routingTable.localInfo⟩ := by
  obtain ⟨info, hinfo, h⟩ := Option.bind_eq_some_iff.mp h
  obtain ⟨request, hrequest, h⟩ := Option.bind_eq_some_iff.mp h
  obtain ⟨receiver, -, h⟩ := Option.bind_eq_some_iff.mp h
  obtain ⟨payload, hpayload, h⟩ := Option.bind_eq_some_iff.mp h
  have hadds : responded W (.pong info) = some (.add k.routingTable.localInfo) := by
    rw [responded, hC.peer _ hself _ hinfo]
    rfl
  exact asks_response hC h hrequest hpayload hadds

/-- What is asked in the name of a peer of the set speaks of such peers if what is to be done
does. -/
theorem about_of_sender {sender : PeerInfo} (hsender : sender ∈ C) {todo : Todo}
    (h : todo.About W C) : Plan.About W C ⟨some sender, todo⟩ := by
  refine ⟨fun peer heq => ?_, h⟩
  cases heq
  exact hsender

theorem about_of_none {todo : Todo} (h : todo.About W C) : Plan.About W C ⟨none, todo⟩ := by
  refine ⟨fun peer heq => ?_, h⟩
  cases heq

/-- Peers of the set, written one after another, are all that is met. -/
theorem about_meet (hC : W.Keeps C) {nodes : List PeerInfo} (hnodes : ∀ peer ∈ nodes, peer ∈ C)
    {nodesVec : Nodes} (hmap : nodes.mapM W.peer.asBytes = some nodesVec) :
    Todo.About W C (.meet nodesVec) := by
  intro bytes hbytes info hinfo
  obtain ⟨peer, hpeer, hwrite⟩ := exists_of_mem_mapM hmap hbytes
  rw [hC.peer _ (hnodes peer hpeer) _ hwrite, Option.some.injEq] at hinfo
  exact hinfo ▸ hnodes peer hpeer

/-! ## One message -/

/-- The table holds peers of the set only, and the local peer is one. -/
structure Knows (k : Kademlia M) (C : Set PeerInfo) : Prop where
  table : k.routingTable.Within C
  self : k.routingTable.localInfo ∈ C

theorem Knows.tick {k : Kademlia M} (h : k.Knows C) : k.tick.Knows C := ⟨h.table, h.self⟩

theorem Knows.updatePeer {k k' : Kademlia M} (h : k.Knows C) {peer : PeerInfo} (hpeer : peer ∈ C)
    (hupdate : k.updatePeer peer = some k') : k'.Knows C := by
  obtain ⟨dest, -, rfl⟩ := updatePeer_eq_some.mp hupdate
  exact ⟨h.table.put hpeer _ _, h.self⟩

/-- Everything sent is vouched for, and goes to peers of the set. -/
def Addressed (W : KadWire) (C : Set PeerInfo) (out : List Outgoing) : Prop :=
  ∀ o ∈ out, Vouched W C o.message ∧ ∃ peer ∈ C, o.dst = peer.address

theorem Knows.bootstrap (hC : W.Keeps C) {k k' : Kademlia M} (h : k.Knows C) {addr : SocketAddr}
    {out : List Outgoing} (hstep : bootstrap W k addr = some (k', out)) :
    k'.Knows C ∧ ∀ o ∈ out, Vouched W C o.message ∧ o.dst = addr := by
  obtain ⟨⟨id, message⟩, hprepare, hstep⟩ := Option.bind_eq_some_iff.mp hstep
  obtain ⟨peer, hpeer, hstep⟩ := Option.bind_eq_some_iff.mp hstep
  obtain ⟨k₁, hadd, heq⟩ := Option.bind_eq_some_iff.mp hstep
  cases heq
  obtain ⟨info, hinfo, hupdate⟩ := addPeer_eq_some.mp hadd
  rw [hC.peer _ h.self _ hpeer, Option.some.injEq] at hinfo
  subst hinfo
  refine ⟨h.tick.updatePeer h.self hupdate, fun o ho => ?_⟩
  cases List.mem_singleton.mp ho
  obtain ⟨req, hasks⟩ := asks_prepareFindNode hC h.self h.self hprepare
  exact ⟨hasks.vouched (about_of_sender h.self h.self), rfl⟩

/-- One entry of a `Nodes` list. -/
theorem Knows.handleNode (hC : W.Keeps C) {k k' : Kademlia M} (h : k.Knows C) {bytes : Peer}
    (hbytes : ∀ info, W.peer.fromBytes bytes = some info → info ∈ C) {out : List Outgoing}
    (hstep : handleNode W k bytes = some (k', out)) : k'.Knows C ∧ Addressed W C out := by
  rcases handleNode_cases hstep with ⟨-, rfl, rfl⟩ | ⟨info, hinfo, ⟨-, hupdate, rfl⟩ |
    ⟨-, k₁, o, hupdate, hboot, rfl⟩⟩
  · exact ⟨h, fun o ho => nomatch ho⟩
  · exact ⟨h.updatePeer (hbytes info hinfo) hupdate, fun o ho => nomatch ho⟩
  · obtain ⟨hknows, hsent⟩ := (h.updatePeer (hbytes info hinfo) hupdate).bootstrap hC hboot
    refine ⟨hknows, fun o' ho' => ?_⟩
    cases List.mem_singleton.mp ho'
    obtain ⟨hvouched, hdst⟩ := hsent o (List.mem_singleton_self o)
    exact ⟨hvouched, info, hbytes info hinfo, hdst⟩

theorem Knows.nodesLoop (hC : W.Keeps C) {k k' : Kademlia M} (h : k.Knows C) {nodes : Nodes}
    (hnodes : ∀ bytes ∈ nodes, ∀ info, W.peer.fromBytes bytes = some info → info ∈ C)
    {out : List Outgoing} (hrun : (nodesLoop W).run k nodes = some (k', out)) :
    k'.Knows C ∧ Addressed W C out := by
  induction nodes generalizing k out with
  | nil =>
    cases hrun
    exact ⟨h, fun o ho => nomatch ho⟩
  | cons bytes nodes ih =>
    obtain ⟨k₁, out₁, out₂, hstep, hrest, rfl⟩ := (Kademlia.nodesLoop W).run_cons_eq_some.mp hrun
    obtain ⟨hknows, hsent⟩ := h.handleNode hC (hnodes bytes List.mem_cons_self) hstep
    obtain ⟨hknows', hsent'⟩ := ih hknows (fun b hb => hnodes b (List.mem_cons_of_mem _ hb)) hrest
    exact ⟨hknows', fun o ho => (List.mem_append.mp ho).elim (hsent o) (hsent' o)⟩

/-- A lookup tells the node of the peers closest to it, and them of the node. -/
theorem Knows.lookup (hC : W.Keeps C) {k k' : Kademlia M} (h : k.Knows C) {node : PeerInfo}
    (hnode : node ∈ C) {request : Req} {out : List Outgoing}
    (hstep : lookup W k node request = some (k', out)) : k'.Knows C ∧ Addressed W C out := by
  obtain ⟨closestPeers, hclosest, hstep⟩ := Option.bind_eq_some_iff.mp hstep
  obtain ⟨k₁, hupdate, hannounce⟩ := Option.bind_eq_some_iff.mp hstep
  have hpeers : ∀ peer ∈ closestPeers, peer ∈ C :=
    fun peer hpeer => h.table.mem_getClosestPeers hclosest hpeer
  have hknows := h.updatePeer hnode hupdate
  obtain ⟨id, msg, respMsg, hmsg, hresp, rfl, rfl⟩ := announce_eq_some hannounce
  refine ⟨hknows.tick, fun o ho => ?_⟩
  rcases List.mem_cons.mp ho with rfl | ho
  · obtain ⟨nodesVec, hmap, hasks⟩ := asks_prepareNodesResponse hC hresp
    exact ⟨hasks.vouched (about_of_none (about_meet hC hpeers hmap)), node, hnode, rfl⟩
  · obtain ⟨peer, hpeer, rfl⟩ := List.mem_map.mp ho
    have hasks := asks_prepareNewPeer hC hknows.self hnode hmsg
    exact ⟨hasks.vouched (about_of_sender hknows.self hnode), peer, hpeers peer hpeer, rfl⟩

/-- **What is to be done** with peers of the set makes the instance know and mention no others. -/
theorem Knows.act (hC : W.Keeps C) {k k' : Kademlia M} (h : k.Knows C) {todo : Todo}
    (habout : todo.About W C) {out : List Outgoing} (hact : act W k todo = some (k', out)) :
    k'.Knows C ∧ Addressed W C out := by
  cases todo with
  | panic => cases hact
  | lost =>
    cases hact
    exact ⟨h, fun o ho => nomatch ho⟩
  | nothing =>
    cases hact
    exact ⟨h, fun o ho => nomatch ho⟩
  | add peer =>
    obtain ⟨k₁, hupdate, heq⟩ := Option.map_eq_some_iff.mp hact
    cases heq
    exact ⟨h.updatePeer habout hupdate, fun o ho => nomatch ho⟩
  | lookup node request => exact h.lookup hC habout hact
  | pong sender request =>
    obtain ⟨respMsg, hpong, heq⟩ := Option.map_eq_some_iff.mp hact
    cases heq
    refine ⟨h, fun o ho => ?_⟩
    cases List.mem_singleton.mp ho
    have hasks := asks_preparePong hC h.self hpong
    exact ⟨hasks.vouched (about_of_none h.self), sender, habout, rfl⟩
  | meet nodes => exact h.nodesLoop hC habout hact

theorem Knows.execute (hC : W.Keeps C) {k k' : Kademlia M} (h : k.Knows C) {plan : Plan}
    (habout : plan.About W C) {out : List Outgoing} (hexec : execute W k plan = some (k', out)) :
    k'.Knows C ∧ Addressed W C out := by
  obtain ⟨k₁, hstore, hact⟩ := Option.bind_eq_some_iff.mp hexec
  have hknows : k₁.Knows C := by
    unfold storeSender at hstore
    split at hstore
    · next sender hsender => exact h.updatePeer (habout.sender sender hsender) hstore
    · cases hstore
      exact h
  exact hknows.act hC habout.todo hact

/-! ## Headers -/

/-- A message of peer discovery. -/
def Discovers (message : Message) : Prop := message.head = .request ∨ message.head = .response

theorem Discovers.ne_ack {message : Message} (h : Discovers message) : message.head ≠ .ack := by
  rcases h with h | h
  · rw [h]
    exact Header.noConfusion
  · rw [h]
    exact Header.noConfusion

theorem Discovers.ne_gossip {message : Message} (h : Discovers message) :
    message.head ≠ .gossip := by
  rcases h with h | h
  · rw [h]
    exact Header.noConfusion
  · rw [h]
    exact Header.noConfusion

theorem discovers_request {req : Req} {message : Message}
    (h : requestMessage W req = some message) : Discovers message := by
  obtain ⟨bytes, -, h⟩ := Option.bind_eq_some_iff.mp h
  obtain ⟨msg, -, heq⟩ := Option.bind_eq_some_iff.mp h
  cases heq
  exact Or.inl rfl

theorem discovers_response {resp : Resp} {message : Message}
    (h : responseMessage W resp = some message) : Discovers message := by
  obtain ⟨bytes, -, h⟩ := Option.bind_eq_some_iff.mp h
  obtain ⟨msg, -, heq⟩ := Option.bind_eq_some_iff.mp h
  cases heq
  exact Or.inr rfl

omit [LinkedHashMap PeerId PeerInfo M] in
theorem discovers_prepareRequest {k : Kademlia M} {rpc : RPC} {id : InnerKey} {message : Message}
    (h : prepareRequest W k rpc = some (id, message)) : Discovers message := by
  obtain ⟨req, hreq, -, -⟩ := prepareRequest_eq_some h
  exact discovers_request hreq

theorem discovers_bootstrap {k k' : Kademlia M} {addr : SocketAddr} {out : List Outgoing}
    (h : bootstrap W k addr = some (k', out)) : ∀ o ∈ out, Discovers o.message := by
  obtain ⟨⟨id, message⟩, hprepare, h⟩ := Option.bind_eq_some_iff.mp h
  obtain ⟨peer, -, h⟩ := Option.bind_eq_some_iff.mp h
  obtain ⟨k₁, -, heq⟩ := Option.bind_eq_some_iff.mp h
  cases heq
  obtain ⟨bytes, -, hprepare⟩ := Option.bind_eq_some_iff.mp hprepare
  intro o ho
  cases List.mem_singleton.mp ho
  exact discovers_prepareRequest hprepare

theorem discovers_nodesLoop {k k' : Kademlia M} {nodes : Nodes} {out : List Outgoing}
    (h : (nodesLoop W).run k nodes = some (k', out)) : ∀ o ∈ out, Discovers o.message := by
  induction nodes generalizing k out with
  | nil =>
    cases h
    exact fun o ho => nomatch ho
  | cons bytes nodes ih =>
    obtain ⟨k₁, out₁, out₂, hstep, hrest, rfl⟩ := (nodesLoop W).run_cons_eq_some.mp h
    intro o ho
    rcases List.mem_append.mp ho with ho | ho
    · rcases handleNode_cases hstep with ⟨-, -, rfl⟩ | ⟨info, -, ⟨-, -, rfl⟩ |
        ⟨-, k₂, o', -, hboot, rfl⟩⟩
      · cases ho
      · cases ho
      · cases List.mem_singleton.mp ho
        exact discovers_bootstrap hboot o' (List.mem_singleton_self o')
    · exact ih hrest o ho

/-- **What handling a message sends** are messages of peer discovery. -/
theorem discovers_handleMessage (hW : W.Faithful localInfo) {depth : Nat} {k k' : Kademlia M}
    {message : KadMessage} {out : List Outgoing}
    (h : handleMessage W (depth + 2) k message = some (k', out)) :
    ∀ o ∈ out, Discovers o.message := by
  rw [handleMessage_eq hW] at h
  obtain ⟨k₁, -, hact⟩ := Option.bind_eq_some_iff.mp h
  intro o ho
  cases htodo : (planOf W message).todo with
  | panic =>
    rw [htodo] at hact
    cases hact
  | lost =>
    rw [htodo] at hact
    cases hact
    cases ho
  | nothing =>
    rw [htodo] at hact
    cases hact
    cases ho
  | add peer =>
    rw [htodo] at hact
    obtain ⟨k₂, -, heq⟩ := Option.map_eq_some_iff.mp hact
    cases heq
    cases ho
  | lookup node request =>
    rw [htodo] at hact
    obtain ⟨closestPeers, -, hact⟩ := Option.bind_eq_some_iff.mp hact
    obtain ⟨k₂, -, hannounce⟩ := Option.bind_eq_some_iff.mp hact
    obtain ⟨id, msg, respMsg, hmsg, hresp, -, rfl⟩ := announce_eq_some hannounce
    rcases List.mem_cons.mp ho with rfl | ho
    · obtain ⟨resp, nodesVec, hresponse, -⟩ := prepareNodesResponse_eq_some hresp
      exact discovers_response hresponse
    · obtain ⟨peer, -, rfl⟩ := List.mem_map.mp ho
      obtain ⟨bytes, -, hprepare⟩ := Option.bind_eq_some_iff.mp hmsg
      exact discovers_prepareRequest hprepare
  | pong sender request =>
    rw [htodo] at hact
    obtain ⟨respMsg, hpong, heq⟩ := Option.map_eq_some_iff.mp hact
    cases heq
    cases List.mem_singleton.mp ho
    obtain ⟨info, -, hpong⟩ := Option.bind_eq_some_iff.mp hpong
    obtain ⟨bytes, -, hpong⟩ := Option.bind_eq_some_iff.mp hpong
    obtain ⟨receiver, -, hpong⟩ := Option.bind_eq_some_iff.mp hpong
    obtain ⟨payload, -, hpong⟩ := Option.bind_eq_some_iff.mp hpong
    exact discovers_response hpong
  | meet nodes =>
    rw [htodo] at hact
    exact discovers_nodesLoop hact o ho

/-! ## Runs -/

/-- The messages handled speak of peers of the set. -/
def Event.About (W : KadWire) (C : Set PeerInfo) : Event → Prop
  | .bootstrap _ => True
  | .handleMessage message => (planOf W message).About W C

/-- What a step sends goes to peers of the set, or to the address it bootstraps from. -/
theorem Knows.step (hW : W.Faithful localInfo) (hC : W.Keeps C) {depth : Nat} {k k' : Kademlia M}
    (h : k.Knows C) {event : Event} (habout : event.About W C) {out : List Outgoing}
    (hstep : (machine W (depth + 2)).step k event = some (k', out)) :
    k'.Knows C ∧ ∀ o ∈ out, Vouched W C o.message ∧
      ((∃ peer ∈ C, o.dst = peer.address) ∨ event = .bootstrap o.dst) := by
  cases event with
  | bootstrap addr =>
    obtain ⟨hknows, hsent⟩ := h.bootstrap hC hstep
    refine ⟨hknows, fun o ho => ?_⟩
    obtain ⟨hvouched, rfl⟩ := hsent o ho
    exact ⟨hvouched, Or.inr rfl⟩
  | handleMessage message =>
    have hexec : Kademlia.execute W k (planOf W message) = some (k', out) := by
      rw [← handleMessage_eq hW depth]
      exact hstep
    obtain ⟨hknows, hsent⟩ := h.execute hC habout hexec
    exact ⟨hknows, fun o ho => ⟨(hsent o ho).1, Or.inl (hsent o ho).2⟩⟩

/-- Every entry of a `Nodes` list that decodes is learned. -/
theorem nodesLoop_learns {k k' : Kademlia M} {nodes : Nodes} {out : List Outgoing}
    (h : (nodesLoop W).run k nodes = some (k', out)) {bytes : Peer} (hbytes : bytes ∈ nodes)
    {peer : PeerInfo} (hpeer : W.peer.fromBytes bytes = some peer) :
    peer.id ∈ k'.routingTable.known := by
  obtain ⟨before, after, rfl⟩ := List.append_of_mem hbytes
  obtain ⟨k₁, out₁, out₂, -, hrun, -⟩ := (nodesLoop W).run_append_eq_some.mp h
  obtain ⟨k₂, out₃, out₄, hstep, hrest, -⟩ := (nodesLoop W).run_cons_eq_some.mp hrun
  apply (Effects.nodesLoop hrest).known_subset
  rcases handleNode_cases hstep with ⟨hnone, -, -⟩ | ⟨info, hinfo, ⟨-, hupdate, -⟩ |
    ⟨-, k₃, o, hupdate, hboot, -⟩⟩
  · rw [hpeer] at hnone
    cases hnone
  · rw [hpeer, Option.some.injEq] at hinfo
    rw [hinfo, known_updatePeer hupdate]
    exact Set.mem_insert _ _
  · rw [hpeer, Option.some.injEq] at hinfo
    apply (Effects.bootstrap hboot).known_subset
    rw [hinfo, known_updatePeer hupdate]
    exact Set.mem_insert _ _

/-- **Peers come from messages.** Whatever set of peers the local one belongs to: if the messages
handled speak of peers of the set only, then in every state reached so does the routing table, and
so do the messages sent, which go to the addresses of such peers or to those bootstrapped from. -/
theorem peers_come_from_messages (hW : W.Faithful localInfo) (hC : W.Keeps C)
    (hself : localInfo ∈ C) {depth now : Nat} {pending : HashSet InnerKey} {draws : Nat → Draw}
    {events : List Event} (habout : ∀ event ∈ events, event.About W C) {k : Kademlia M}
    {outs : List Outgoing}
    (hrun : (machine W (depth + 2)).run (new localInfo now pending draws) events =
      some (k, outs)) :
    (∀ peer ∈ k.routingTable.getAllPeers, peer ∈ C) ∧
    ∀ o ∈ outs, Vouched W C o.message ∧
      ((∃ peer ∈ C, o.dst = peer.address) ∨ .bootstrap o.dst ∈ events) := by
  have hall := (machine W (depth + 2)).run_history (A := fun event => event.About W C)
    (P := fun k events outs => k.Knows C ∧ ∀ o ∈ outs, Vouched W C o.message ∧
      ((∃ peer ∈ C, o.dst = peer.address) ∨ .bootstrap o.dst ∈ events)) ?_
    ⟨⟨RoutingTable.within_new hself now, hself⟩, fun o ho => nomatch ho⟩ habout hrun
  · exact ⟨fun peer hpeer => hall.1.table.mem_getAllPeers hpeer, hall.2⟩
  · intro k hist outs event k' out hprev hevent hstep
    obtain ⟨hknows, hsent⟩ := hprev.1.step hW hC hevent hstep
    refine ⟨hknows, fun o ho => ?_⟩
    rcases List.mem_append.mp ho with hold | hnew
    · obtain ⟨hvouched, hdst⟩ := hprev.2 o hold
      exact ⟨hvouched, hdst.imp id fun hmem => List.mem_append_left _ hmem⟩
    · obtain ⟨hvouched, hdst⟩ := hsent o hnew
      refine ⟨hvouched, hdst.imp id fun heq => ?_⟩
      rw [heq]
      exact List.mem_append_right _ (List.mem_singleton_self _)

/-! ## A peer heard of -/

open RoutingTable

/-- The local peer, and one it hears of. -/
def heardOf : List PeerInfo := [localPeer, peerAt 128 0]

theorem nodup_heardOf : (heardOf.map peerJson).Nodup := by decide +kernel

/-- A response that lists the second peer. -/
def listingResponse : Resp where
  request := reqJson someRequest
  receiver := peerJson localPeer
  payload := rpcJson (.nodes [peerJson (peerAt 128 0)])

theorem planOf_listing : planOf (.listed heardOf) (.response (respJson listingResponse)) =
    ⟨none, .meet [peerJson (peerAt 128 0)]⟩ := by
  have hread : readResponse (.listed heardOf) (respJson listingResponse) =
      some (someRequest, some (.nodes [peerJson (peerAt 128 0)])) :=
    readResponse_listed heardOf rfl rfl
  rw [planOf, responsePlan, hread]
  rfl

/-- The second peer is stored, and it was listed. -/
theorem heard_peer_comes_from_message : ∃ (k : Kademlia ListedNodes) (outs : List Outgoing),
    (machine (.listed heardOf) 2).run (new localPeer 0 ∅ someDraws)
      [.handleMessage (.response (respJson listingResponse))] = some (k, outs) ∧
    (peerAt 128 0).id ∈ k.routingTable.known ∧
    (∀ peer ∈ k.routingTable.getAllPeers, peer ∈ {peer | peer ∈ heardOf}) ∧
    ∀ o ∈ outs, Vouched (.listed heardOf) {peer | peer ∈ heardOf} o.message ∧
      ((∃ peer ∈ {peer | peer ∈ heardOf}, o.dst = peer.address) ∨
        .bootstrap o.dst ∈ [Event.handleMessage (.response (respJson listingResponse))]) := by
  have hself : localPeer ∈ heardOf := List.mem_cons_self
  have hfaithful := KadWire.listed_faithful nodup_heardOf hself
  have hloop : ((nodesLoop (.listed heardOf)).run
      (new localPeer 0 ∅ someDraws : Kademlia ListedNodes) [peerJson (peerAt 128 0)]).isSome :=
    nodesLoop_returns hfaithful rfl (sizesLe_new localPeer 0) (by decide)
  obtain ⟨⟨k, outs⟩, hloop⟩ := Option.isSome_iff_exists.mp hloop
  have hexec : execute (.listed heardOf) (new localPeer 0 ∅ someDraws)
      (planOf (.listed heardOf) (.response (respJson listingResponse))) = some (k, outs) := by
    rw [planOf_listing]
    exact hloop
  have hrun := run_of_execute hfaithful hexec
  have hread : (KadWire.listed heardOf).peer.fromBytes (peerJson (peerAt 128 0)) =
      some (peerAt 128 0) := ByteRep.reading_of_nodup nodup_heardOf (by decide)
  refine ⟨k, outs, hrun, nodesLoop_learns hloop List.mem_cons_self hread, ?_⟩
  apply peers_come_from_messages hfaithful (KadWire.listed_keeps nodup_heardOf) hself ?_ hrun
  intro event hevent
  cases List.mem_singleton.mp hevent
  show (planOf (.listed heardOf) _).About (.listed heardOf) _
  rw [planOf_listing]
  refine ⟨(fun peer heq => nomatch heq), fun bytes _ info hinfo => ?_⟩
  exact (ByteRep.reading_eq_some hinfo).1

end Kademlia

end Udp2p
