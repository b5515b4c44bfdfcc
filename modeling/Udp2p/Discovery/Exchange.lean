import Udp2p.Discovery.Small

/-!
# Does bootstrapping introduce the nodes to each other?

A node that bootstraps asks another one for the nodes closest to itself. The one asked stores it,
answers with the closest it knows, eight at most, and tells these of it. So once the answer is
handled the asking node knows them, and asks those that were new to it. Where an answer can list
all, the two know each other then, and a node that several others bootstrap from introduces any two
of them to each other.

What is sent and what is handled meet at the plan of a message.

* `Plan.Names`, `execute_learns` — what an instance learns from a message.
* `lookup_introduces` — what handling a request to find a node sends.
* `bootstrap_exchange`, `ping_exchange` — a request and its answer.
* `bootstrap_node_introduces` — a run of a node that several others ask.
-/

namespace Udp2p

namespace RoutingTable

variable {M : Type} [LinkedHashMap PeerId PeerInfo M] {peers : Finset PeerInfo}

/-- The ids of the peers tell them apart. -/
def DistinctIds (peers : Finset PeerInfo) : Prop :=
  ∀ p ∈ peers, ∀ q ∈ peers, p.id = q.id → p = q

/-- A peer with a known id is in the table, if ids tell peers apart. -/
theorem Kept.mem_of_known {t : RoutingTable M} (h : t.Kept peers) (hids : DistinctIds peers)
    {peer : PeerInfo} (hpeer : peer ∈ peers) (hknown : peer.id ∈ t.known) :
    peer ∈ t.getAllPeers := by
  obtain ⟨p, hp, hid⟩ := List.mem_map.mp (h.bucketed.mem_ids_getAllPeers.mpr hknown)
  rw [← hids p (h.mem_getAllPeers hp) peer hpeer hid]
  exact hp

end RoutingTable

namespace Kademlia

open RoutingTable (DistinctIds)

variable {M : Type} [LinkedHashMap PeerId PeerInfo M] {W : KadWire} {localInfo : PeerInfo}

/-! ## What is learned -/

/-- A message with this plan names the peer: as its sender, as the one to add or to look up, or
among those to meet. -/
def Plan.Names (W : KadWire) (plan : Plan) (peer : PeerInfo) : Prop :=
  plan.sender = some peer ∨ plan.todo = .add peer ∨ (∃ req, plan.todo = .lookup peer req) ∨
    ∃ nodes, plan.todo = .meet nodes ∧ ∃ bytes ∈ nodes, W.peer.fromBytes bytes = some peer

theorem Plan.names_meet {sender : Option PeerInfo} {nodes : Nodes} {bytes : Peer}
    (hbytes : bytes ∈ nodes) {peer : PeerInfo} (hread : W.peer.fromBytes bytes = some peer) :
    Plan.Names W ⟨sender, .meet nodes⟩ peer :=
  Or.inr (Or.inr (Or.inr ⟨nodes, rfl, bytes, hbytes, hread⟩))

/-- **Whoever a message names** is known once it is handled. -/
theorem execute_learns {k k' : Kademlia M} {plan : Plan} {out : List Outgoing}
    (h : execute W k plan = some (k', out)) {peer : PeerInfo} (hnames : plan.Names W peer) :
    peer.id ∈ k'.routingTable.known := by
  obtain ⟨k₁, hstore, hact⟩ := Option.bind_eq_some_iff.mp h
  rcases hnames with hsender | hadd | ⟨req, hlookup⟩ | ⟨nodes, hmeet, bytes, hbytes, hpeer⟩
  · apply (Effects.act hact).known_subset
    simp only [storeSender, hsender] at hstore
    rw [known_updatePeer hstore]
    exact Set.mem_insert _ _
  · rw [hadd] at hact
    obtain ⟨k₂, hupdate, heq⟩ := Option.map_eq_some_iff.mp hact
    cases heq
    rw [known_updatePeer hupdate]
    exact Set.mem_insert _ _
  · rw [hlookup] at hact
    obtain ⟨closestPeers, -, hact⟩ := Option.bind_eq_some_iff.mp hact
    obtain ⟨k₂, hupdate, hannounce⟩ := Option.bind_eq_some_iff.mp hact
    apply (Effects.announce hannounce).known_subset
    rw [known_updatePeer hupdate]
    exact Set.mem_insert _ _
  · rw [hmeet] at hact
    exact nodesLoop_learns hact hbytes hpeer

/-- A message that makes whoever handles it know the peer. -/
def Teaches (W : KadWire) (message : Message) (peer : PeerInfo) : Prop :=
  ∃ plan, Asks W message plan ∧ plan.Names W peer

/-- The message to `p.address` names `q`, and that to `q.address` names `p`. -/
structure Introduces (W : KadWire) (out : List Outgoing) (p q : PeerInfo) : Prop where
  first : ∃ o ∈ out, o.dst = p.address ∧ Teaches W o.message q
  second : ∃ o ∈ out, o.dst = q.address ∧ Teaches W o.message p

/-! ## What a request to find a node sends -/

variable {peers : Finset PeerInfo}

/-- **A request to find a node** is answered with the peers closest to it, once it is stored, and
each of these is told of the node. -/
theorem lookup_introduces (hC : W.Keeps {peer | peer ∈ peers}) {k k' : Kademlia M}
    (h : k.Small localInfo peers) {node : PeerInfo} (hnode : node ∈ peers) {request : Req}
    {out : List Outgoing}
    (hexec : execute W k ⟨some node, .lookup node request⟩ = some (k', out)) :
    ∃ k₁ closestPeers, k.updatePeer node = some k₁ ∧
      k₁.routingTable.getClosestPeers node defaultNPeers = some closestPeers ∧
      (∀ p ∈ closestPeers, p ∈ peers) ∧ k'.routingTable.known = k₁.routingTable.known ∧
      (∃ o ∈ out, o.dst = node.address ∧ ∃ nodes, Asks W o.message ⟨none, .meet nodes⟩ ∧
        Todo.About W {peer | peer ∈ peers} (.meet nodes) ∧
        ∀ p ∈ closestPeers, ∃ bytes ∈ nodes, W.peer.fromBytes bytes = some p) ∧
      ∀ p ∈ closestPeers, ∃ o ∈ out, o.dst = p.address ∧ Teaches W o.message node := by
  obtain ⟨k₁, hstore, hact⟩ := Option.bind_eq_some_iff.mp hexec
  have hstore : k.updatePeer node = some k₁ := hstore
  obtain ⟨closestPeers, hclosest, hact⟩ := Option.bind_eq_some_iff.mp hact
  obtain ⟨k₂, hupdate, hannounce⟩ := Option.bind_eq_some_iff.mp hact
  obtain ⟨id, msg, respMsg, hmsg, hresp, rfl, rfl⟩ := announce_eq_some hannounce
  have h₁ := h.updatePeer hnode hstore
  have h₂ := h₁.updatePeer hnode hupdate
  have hpeers : ∀ p ∈ closestPeers, p ∈ peers := fun p hp =>
    h₁.kept.within.mem_getClosestPeers hclosest hp
  refine ⟨k₁, closestPeers, hstore, hclosest, hpeers, ?_, ?_, ?_⟩
  · -- the node was stored, so that looking it up makes nobody known
    show k₂.routingTable.known = _
    rw [known_updatePeer hupdate]
    apply Set.insert_eq_of_mem
    rw [known_updatePeer hstore]
    exact Set.mem_insert _ _
  · obtain ⟨nodesVec, hmap, hasks⟩ := asks_prepareNodesResponse hC hresp
    refine ⟨_, List.mem_cons_self, rfl, nodesVec, hasks, about_meet hC hpeers hmap, fun p hp => ?_⟩
    obtain ⟨bytes, hbytes, hwrite⟩ := exists_mem_of_mapM hmap hp
    exact ⟨bytes, hbytes, hC.peer p (hpeers p hp) _ hwrite⟩
  · intro p hp
    have hasks := asks_prepareNewPeer hC h₂.knows.self hnode hmsg
    refine ⟨_, List.mem_cons_of_mem _ (List.mem_map.mpr ⟨p, hp, rfl⟩), rfl, ?_⟩
    exact ⟨_, hasks, Or.inr (Or.inl rfl)⟩

/-- If an answer can list all, everyone known is among the closest. -/
theorem Small.mem_closest (hids : DistinctIds peers) (hfew : peers.card ≤ defaultNPeers)
    {k : Kademlia M} (h : k.Small localInfo peers) {node : PeerInfo} {closestPeers : List PeerInfo}
    (hclosest : k.routingTable.getClosestPeers node defaultNPeers = some closestPeers)
    {p : PeerInfo} (hp : p ∈ peers) (hknown : p.id ∈ k.routingTable.known) : p ∈ closestPeers := by
  have hlt : peers.card < maxBucketLen := Nat.lt_of_le_of_lt hfew (by decide)
  exact h.kept.mem_closest hlt hfew hclosest (h.kept.mem_of_known hids hp hknown)

/-! ## Who asks -/

/-- In a run about the few peers every state reached is small, and the local peer known. -/
theorem small_reached (hW : W.Faithful localInfo) (hC : W.Keeps {peer | peer ∈ peers})
    (hfew : peers.card < maxBucketLen) (hself : localInfo ∈ peers) {depth now : Nat}
    {pending : HashSet InnerKey} {draws : Nat → Draw} {events : List Event}
    (habout : ∀ event ∈ events, event.About W {peer | peer ∈ peers}) {k : Kademlia M}
    {outs : List Outgoing} (hrun : (machine W (depth + 2)).run (new localInfo now pending draws)
      events = some (k, outs)) :
    k.Small localInfo peers ∧ localInfo.id ∈ k.routingTable.known := by
  constructor
  · have hreturns : ∃ (k' : Kademlia M) (outs' : List Outgoing), (machine W (depth + 2)).run
        (new localInfo now pending draws) events = some (k', outs') ∧ k'.Small localInfo peers :=
      small_of_run hW hC hfew hself habout
    obtain ⟨k', outs', hrun', hsmall⟩ := hreturns
    rw [hrun, Option.some.injEq] at hrun'
    cases hrun'
    exact hsmall
  · apply (effects_of_run hrun).known_subset
    show localInfo.id ∈ (RoutingTable.new localInfo now : RoutingTable M).known
    rw [RoutingTable.known_new]
    rfl

/-- A state that the instance of a node may reach, if it handles messages about the peers only. -/
def Reached (W : KadWire) (localInfo : PeerInfo) (peers : Finset PeerInfo) (k : Kademlia M) :
    Prop :=
  ∃ depth now pending draws events outs,
    (∀ event ∈ events, Event.About W {peer | peer ∈ peers} event) ∧
    (machine W (depth + 2)).run (new localInfo now pending draws) events = some (k, outs)

theorem Reached.small (hW : W.Faithful localInfo) (hC : W.Keeps {peer | peer ∈ peers})
    (hfew : peers.card < maxBucketLen) (hself : localInfo ∈ peers) {k : Kademlia M}
    (h : Reached W localInfo peers k) :
    k.Small localInfo peers ∧ localInfo.id ∈ k.routingTable.known := by
  obtain ⟨depth, now, pending, draws, events, outs, habout, hrun⟩ := h
  exact small_reached hW hC hfew hself habout hrun

/-! ## Request and answer -/

/-- A message about the few peers is handled, and whom it names is known then. -/
theorem Small.handles (hW : W.Faithful localInfo) (hC : W.Keeps {peer | peer ∈ peers})
    (hfew : peers.card < maxBucketLen) {k : Kademlia M} (h : k.Small localInfo peers)
    {message : KadMessage} (habout : (planOf W message).About W {peer | peer ∈ peers})
    (depth : Nat) : ∃ k' out, handleMessage W (depth + 2) k message = some (k', out) ∧
      Kademlia.execute W k (planOf W message) = some (k', out) ∧ k'.Small localInfo peers := by
  have hevent : Event.About W {peer | peer ∈ peers} (.handleMessage message) := habout
  obtain ⟨k', out, hstep, hsmall⟩ := h.step hW hC hfew depth hevent
  refine ⟨k', out, hstep, ?_, hsmall⟩
  rw [← handleMessage_eq hW depth]
  exact hstep

/-- `prepare_ping_message`. -/
def preparePingMessage (W : KadWire) (k : Kademlia M) : Option (InnerKey × Message) :=
  prepareRequest W k .ping

/-- **A ping and its pong.** The node that is pinged stores the one that pings, and sends one pong,
to its address; the pong, whatever has been learned meanwhile, makes the pinging node know the
other, and sends nothing. None of it panics. -/
theorem ping_exchange {a b : PeerInfo} (hA : W.Faithful a) (hB : W.Faithful b)
    (hC : W.Keeps {peer | peer ∈ peers}) (hids : DistinctIds peers)
    (hfew : peers.card < maxBucketLen) (ha : a ∈ peers) (hb : b ∈ peers) {kA kB : Kademlia M}
    (hkA : Reached W a peers kA) (hkB : Reached W b peers kB) (depth : Nat) :
    ∃ id ping, preparePingMessage W kA = some (id, ping) ∧
    ∃ request, W.kad.fromBytes ping.msg = some request ∧
    ∃ kB' pong, handleMessage W (depth + 2) kB request = some (kB', [pong]) ∧
      a ∈ kB'.routingTable.getAllPeers ∧ pong.dst = a.address ∧
    ∃ response, W.kad.fromBytes pong.message.msg = some response ∧
    ∀ kA₁ : Kademlia M, Reached W a peers kA₁ →
    ∃ kA₂, handleMessage W (depth + 2) kA₁ response = some (kA₂, []) ∧
      b ∈ kA₂.routingTable.getAllPeers := by
  have hsA := (hkA.small hA hC hfew ha).1
  have hsB := (hkB.small hB hC hfew hb).1
  -- the ping
  obtain ⟨⟨id, ping⟩, hping⟩ := Option.isSome_iff_exists.mp (prepareRequest_isSome hA kA .ping)
  obtain ⟨req, request, hrequest, hplan⟩ :=
    asks_prepareRequest hC (hsA.self ▸ hsA.citizen) hping fun _ => rfl
  rw [hsA.self] at hplan
  refine ⟨id, ping, hping, request, hrequest, ?_⟩
  -- its handling
  have hasked : (planOf W request).About W {peer | peer ∈ peers} := by
    rw [hplan]
    exact about_of_sender ha ha
  obtain ⟨kB', out, hhandle, hexec, hsB'⟩ := hsB.handles hB hC hfew hasked depth
  rw [hplan] at hexec
  have hknown : a.id ∈ kB'.routingTable.known := execute_learns hexec (Or.inl rfl)
  obtain ⟨k₁, hstore, hact⟩ := Option.bind_eq_some_iff.mp hexec
  obtain ⟨pong, hpong, heq⟩ := Option.map_eq_some_iff.mp hact
  cases heq
  obtain ⟨response, hresponse, hadd⟩ := asks_preparePong hC (hsB'.self ▸ hsB'.citizen) hpong
  rw [hsB'.self] at hadd
  refine ⟨_, _, hhandle, hsB'.kept.mem_of_known hids ha hknown, rfl, response, hresponse,
    fun kA₁ hkA₁ => ?_⟩
  -- the handling of the pong
  have hsA₁ := (hkA₁.small hA hC hfew ha).1
  have hanswered : (planOf W response).About W {peer | peer ∈ peers} := by
    rw [hadd]
    exact about_of_none hb
  obtain ⟨kA₂, out, hhandle', hexec', hsA₂⟩ := hsA₁.handles hA hC hfew hanswered depth
  rw [hadd] at hexec'
  have hlearned : b.id ∈ kA₂.routingTable.known :=
    execute_learns hexec' (Or.inr (Or.inl rfl))
  obtain ⟨k₂, hupdate, heq⟩ := Option.map_eq_some_iff.mp hexec'
  cases heq
  exact ⟨_, hhandle', hsA₂.kept.mem_of_known hids hb hlearned⟩

/-! ## A node several others bootstrap from -/

/-- **Introductions.** In every run of a node that is asked by `p` and later by `q`, whatever else
happens before, between and after, `q` is sent a message that makes it know `p`, and `p` one that
makes it know `q`; and the node knows both. -/
theorem bootstrap_node_introduces (hW : W.Faithful localInfo)
    (hC : W.Keeps {peer | peer ∈ peers}) (hids : DistinctIds peers)
    (hfew : peers.card ≤ defaultNPeers) (hself : localInfo ∈ peers) {depth now : Nat}
    {pending : HashSet InnerKey} {draws : Nat → Draw} {before between after : List Event}
    {mp mq : KadMessage} {p q : PeerInfo} {rp rq : Req}
    (hp : planOf W mp = ⟨some p, .lookup p rp⟩) (hq : planOf W mq = ⟨some q, .lookup q rq⟩)
    (habout : ∀ event ∈ before ++ .handleMessage mp :: (between ++ .handleMessage mq :: after),
      event.About W {peer | peer ∈ peers})
    {k : Kademlia M} {outs : List Outgoing} (hrun : (machine W (depth + 2)).run
      (new localInfo now pending draws)
      (before ++ .handleMessage mp :: (between ++ .handleMessage mq :: after)) = some (k, outs)) :
    Introduces W outs p q ∧ p ∈ k.routingTable.getAllPeers ∧ q ∈ k.routingTable.getAllPeers := by
  have hlt : peers.card < maxBucketLen := Nat.lt_of_le_of_lt hfew (by decide)
  have hsmall := (small_reached hW hC hlt hself habout hrun).1
  -- the two steps, and what is in between
  obtain ⟨k₁, out₁, out₂, hbefore, hrest₁, rfl⟩ :=
    (machine W (depth + 2)).run_append_eq_some.mp hrun
  obtain ⟨k₂, out₃, out₄, hstep, hrest₂, rfl⟩ := (machine W (depth + 2)).run_cons_eq_some.mp hrest₁
  obtain ⟨k₃, out₅, out₆, hbetween, hrest₃, rfl⟩ :=
    (machine W (depth + 2)).run_append_eq_some.mp hrest₂
  obtain ⟨k₄, out₇, out₈, hstep', hafter, rfl⟩ :=
    (machine W (depth + 2)).run_cons_eq_some.mp hrest₃
  have hprefix : (machine W (depth + 2)).run (new localInfo now pending draws)
      (before ++ .handleMessage mp :: between) = some (k₃, out₁ ++ (out₃ ++ out₅)) :=
    (machine W (depth + 2)).run_append_eq_some.mpr ⟨k₁, _, _, hbefore,
      (machine W (depth + 2)).run_cons_eq_some.mpr ⟨k₂, _, _, hstep, hbetween, rfl⟩, rfl⟩
  have hsmall₃ : k₃.Small localInfo peers := by
    refine (small_reached hW hC hlt hself ?_ hprefix).1
    intro event hevent
    apply habout
    rcases List.mem_append.mp hevent with hmem | hmem
    · exact List.mem_append_left _ hmem
    · rcases List.mem_cons.mp hmem with rfl | hmem
      · exact List.mem_append_right _ List.mem_cons_self
      · exact List.mem_append_right _ (List.mem_cons_of_mem _ (List.mem_append_left _ hmem))
  have hmemp : p ∈ peers := by
    have hevent : Event.About W {peer | peer ∈ peers} (.handleMessage mp) := habout _ (by simp)
    exact hevent.sender p (by rw [hp])
  have hmemq : q ∈ peers := by
    have hevent : Event.About W {peer | peer ∈ peers} (.handleMessage mq) := habout _ (by simp)
    exact hevent.sender q (by rw [hq])
  have hexec : execute W k₁ ⟨some p, .lookup p rp⟩ = some (k₂, out₃) := by
    rw [← hp, ← handleMessage_eq hW depth]
    exact hstep
  have hexec' : execute W k₃ ⟨some q, .lookup q rq⟩ = some (k₄, out₇) := by
    rw [← hq, ← handleMessage_eq hW depth]
    exact hstep'
  -- the first is still known when the second asks
  have hknown : p.id ∈ k₄.routingTable.known := by
    apply (step_effects hstep').known_subset
    apply (effects_of_run hbetween).known_subset
    exact execute_learns hexec (Or.inl rfl)
  have hkeeps := (effects_of_run hafter).known_subset
  obtain ⟨k₅, closestPeers, hstore, hclosest, -, hsame, ⟨o, ho, hdst, nodes, hasks, -, hlists⟩,
    htold⟩ := lookup_introduces hC hsmall₃ hmemq hexec'
  have hclose : p ∈ closestPeers :=
    (hsmall₃.updatePeer hmemq hstore).mem_closest hids hfew hclosest hmemp (hsame ▸ hknown)
  have hsub : ∀ o ∈ out₇, o ∈ out₁ ++ (out₃ ++ (out₅ ++ (out₇ ++ out₈))) := by
    intro o ho
    simp [ho]
  refine ⟨⟨?_, ?_⟩, hsmall.kept.mem_of_known hids hmemp (hkeeps hknown),
    hsmall.kept.mem_of_known hids hmemq (hkeeps (execute_learns hexec' (Or.inl rfl)))⟩
  · obtain ⟨o', ho', hdst', hteaches⟩ := htold p hclose
    exact ⟨o', hsub o' ho', hdst', hteaches⟩
  · obtain ⟨bytes, hbytes, hread⟩ := hlists p hclose
    exact ⟨o, hsub o ho, hdst, _, hasks, Plan.names_meet hbytes hread⟩

/-! ## Three nodes -/

open RoutingTable

def threeNodes : List PeerInfo := [localPeer, peerAt 128 0, peerAt 64 1]

theorem nodup_threeNodes : (threeNodes.map peerJson).Nodup := by decide +kernel

theorem threeNodes_faithful {localInfo : PeerInfo} (hself : localInfo ∈ threeNodes) :
    (KadWire.listed threeNodes).Faithful localInfo :=
  KadWire.listed_faithful nodup_threeNodes hself

theorem threeNodes_keeps :
    (KadWire.listed threeNodes).Keeps {peer | peer ∈ threeNodes.toFinset} := by
  simp only [List.mem_toFinset]
  exact KadWire.listed_keeps nodup_threeNodes

theorem threeNodes_distinctIds : DistinctIds threeNodes.toFinset := by
  show ∀ p ∈ threeNodes.toFinset, ∀ q ∈ threeNodes.toFinset, p.id = q.id → p = q
  decide

/-- One of the nodes, as it is started. -/
def started (localInfo : PeerInfo) : Kademlia ListedNodes := new localInfo 0 ∅ someDraws

theorem started_reached (localInfo : PeerInfo) :
    Reached (.listed threeNodes) localInfo threeNodes.toFinset (started localInfo) :=
  ⟨0, 0, ∅, someDraws, [], [], (fun _ h => nomatch h), rfl⟩

theorem second_node_pings : ∃ id ping,
    preparePingMessage (.listed threeNodes) (started (peerAt 128 0)) = some (id, ping) ∧
    ∃ request, (KadWire.listed threeNodes).kad.fromBytes ping.msg = some request ∧
    ∃ kB' pong, handleMessage (.listed threeNodes) 2 (started localPeer) request =
      some (kB', [pong]) ∧ peerAt 128 0 ∈ kB'.routingTable.getAllPeers ∧
      pong.dst = (peerAt 128 0).address ∧
    ∃ response, (KadWire.listed threeNodes).kad.fromBytes pong.message.msg = some response ∧
    ∀ kA₁ : Kademlia ListedNodes,
      Reached (.listed threeNodes) (peerAt 128 0) threeNodes.toFinset kA₁ →
    ∃ kA₂, handleMessage (.listed threeNodes) 2 kA₁ response = some (kA₂, []) ∧
      localPeer ∈ kA₂.routingTable.getAllPeers :=
  ping_exchange (threeNodes_faithful (by decide)) (threeNodes_faithful (by decide))
    threeNodes_keeps threeNodes_distinctIds (by decide) (by decide) (by decide)
    (started_reached _) (started_reached _) 0

/-- A node looks for those closest to itself. -/
def findingRequest (peer : PeerInfo) : Req where
  id := List.Vector.replicate 32 1
  sender := peerJson peer
  payload := rpcJson (.findNode (peerJson peer))

theorem planOf_findNode {bytes : RequestBytes} {req : Req}
    (hreq : W.req.fromBytes bytes = some req) {sender : PeerInfo}
    (hsender : W.peer.fromBytes req.sender = some sender) {node : Peer}
    (hrpc : W.rpc.fromBytes req.payload = some (.findNode node)) {peer : PeerInfo}
    (hpeer : W.peer.fromBytes node = some peer) :
    planOf W (.request bytes) = ⟨some sender, .lookup peer req⟩ := by
  simp only [planOf, requestPlan, requestTodo, hreq, hsender, hrpc, requested, hpeer, Option.elim]

theorem planOf_finding {peer : PeerInfo} (hpeer : peer ∈ threeNodes) :
    planOf (.listed threeNodes) (.request (reqJson (findingRequest peer))) =
      ⟨some peer, .lookup peer (findingRequest peer)⟩ := by
  have hread : (KadWire.listed threeNodes).peer.fromBytes (peerJson peer) = some peer :=
    ByteRep.reading_of_nodup nodup_threeNodes hpeer
  have hrpc : (KadWire.listed threeNodes).rpc.fromBytes (findingRequest peer).payload =
      some (.findNode (peerJson peer)) := KadWire.listed_rpc threeNodes (.findNode (peerJson peer))
  have hreq : (KadWire.listed threeNodes).req.fromBytes (reqJson (findingRequest peer)) =
      some (findingRequest peer) := KadWire.formatted_req _ _ (findingRequest peer)
  exact planOf_findNode hreq hread hrpc hread

theorem three_nodes_introduced : ∃ (k : Kademlia ListedNodes) (outs : List Outgoing),
    (machine (.listed threeNodes) 2).run (started localPeer)
      ([] ++ .handleMessage (.request (reqJson (findingRequest (peerAt 128 0)))) ::
        ([] ++ .handleMessage (.request (reqJson (findingRequest (peerAt 64 1)))) :: [])) =
      some (k, outs) ∧
    Introduces (.listed threeNodes) outs (peerAt 128 0) (peerAt 64 1) ∧
    peerAt 128 0 ∈ k.routingTable.getAllPeers ∧ peerAt 64 1 ∈ k.routingTable.getAllPeers := by
  have hself : localPeer ∈ threeNodes := by decide
  have hp : peerAt 128 0 ∈ threeNodes := by decide
  have hq : peerAt 64 1 ∈ threeNodes := by decide
  have habout : ∀ event ∈ [] ++ Event.handleMessage (.request (reqJson
      (findingRequest (peerAt 128 0)))) :: ([] ++ .handleMessage (.request (reqJson
        (findingRequest (peerAt 64 1)))) :: []),
      event.About (.listed threeNodes) {peer | peer ∈ threeNodes.toFinset} := by
    intro event hevent
    simp only [List.nil_append, List.mem_cons, List.not_mem_nil, or_false] at hevent
    rcases hevent with rfl | rfl
    · show (planOf _ _).About _ _
      rw [planOf_finding hp]
      exact about_of_sender (List.mem_toFinset.mpr hp) (List.mem_toFinset.mpr hp)
    · show (planOf _ _).About _ _
      rw [planOf_finding hq]
      exact about_of_sender (List.mem_toFinset.mpr hq) (List.mem_toFinset.mpr hq)
  obtain ⟨k, outs, hrun, -⟩ := small_of_run (M := ListedNodes) (threeNodes_faithful hself)
    threeNodes_keeps (by decide) (List.mem_toFinset.mpr hself) habout
  exact ⟨k, outs, hrun, bootstrap_node_introduces (threeNodes_faithful hself)
    threeNodes_keeps threeNodes_distinctIds (by decide) (List.mem_toFinset.mpr hself)
    (planOf_finding hp) (planOf_finding hq) habout hrun⟩

end Kademlia

end Udp2p
