import Udp2p.Lib.Once
import Udp2p.Discovery.Dispatch

/-!
# Does peer discovery flood the network?

A `Nodes` list makes a node ask the peers on it for theirs, and these answer with lists of their
own. A peer is asked only if its id is in no bucket, and its id is stored before it is asked: since
the table forgets no id, no list makes a node ask for the same id twice.

* `handleNode_asks`, `handleNode_findsNode` — what an entry of a list sends, and why.
* `Effects.emitsOnce` — ids stay known, and a message caused by an entry is sent for an id that was
  not known and is then.
* `discovery_does_not_flood` — one message per id over any run, and none for the local id.
-/

namespace Udp2p

namespace Kademlia

variable {M : Type} [LinkedHashMap PeerId PeerInfo M] {W : KadWire}

theorem known_updatePeer {k k' : Kademlia M} {peer : PeerInfo} (h : k.updatePeer peer = some k') :
    k'.routingTable.known = insert peer.id k.routingTable.known := by
  rw [updatePeer_eq] at h
  obtain ⟨dest, -, rfl⟩ := Option.map_eq_some_iff.mp h
  exact RoutingTable.known_put _ _ _ _

/-- No id known is forgotten. -/
theorem Effects.known_subset {k k' : Kademlia M} {out : List Outgoing} (h : Effects W k k' out) :
    k.routingTable.known ⊆ k'.routingTable.known := by
  refine h.invariant (P := fun s => k.routingTable.known ⊆ s.routingTable.known) (fun _ hs => hs) ?_
    subset_rfl
  intro s s' peer hs hupdate
  rw [known_updatePeer hupdate]
  exact hs.trans (Set.subset_insert _ _)

/-- **One entry** asks for peers if its id was in no bucket, and leaves it known. -/
theorem handleNode_asks {k k' : Kademlia M} {peer : Peer} {out : List Outgoing}
    (h : handleNode W k peer = some (k', out)) {o : Outgoing} (ho : o ∈ out) :
    ∃ info, W.peer.fromBytes peer = some info ∧ o.cause = some info.id ∧ out = [o] ∧
      info.id ∉ k.routingTable.known ∧ info.id ∈ k'.routingTable.known := by
  rcases handleNode_cases h with ⟨-, -, rfl⟩ | ⟨info, hinfo, ⟨-, -, rfl⟩ |
    ⟨hnew, k₁, o', hupdate, hboot, rfl⟩⟩
  · cases ho
  · cases ho
  · obtain rfl := List.mem_singleton.mp ho
    refine ⟨info, hinfo, rfl, rfl, RoutingTable.isNew_iff.mp hnew, ?_⟩
    apply (Effects.bootstrap hboot).known_subset
    rw [known_updatePeer hupdate]
    exact Set.mem_insert _ _

/-- The message is a request of the local peer for the peers closest to it. -/
def FindsNode (W : KadWire) (k : Kademlia M) (message : Message) : Prop :=
  ∃ id sender payload, W.peer.asBytes k.routingTable.localInfo = some sender ∧
    W.rpc.asBytes (.findNode sender) = some payload ∧
    requestMessage W { id, sender, payload } = some message

theorem findsNode_of_bootstrap {k k' : Kademlia M} {addr : SocketAddr} {out : List Outgoing}
    (h : bootstrap W k addr = some (k', out)) {o : Outgoing} (ho : o ∈ out) :
    o.dst = addr ∧ FindsNode W k o.message := by
  obtain ⟨⟨id, message⟩, hprepare, h⟩ := Option.bind_eq_some_iff.mp h
  obtain ⟨peer, hpeer, h⟩ := Option.bind_eq_some_iff.mp h
  obtain ⟨k₁, -, heq⟩ := Option.bind_eq_some_iff.mp h
  cases heq
  obtain rfl := List.mem_singleton.mp ho
  obtain ⟨bytes, hbytes, hprepare⟩ := Option.bind_eq_some_iff.mp hprepare
  obtain ⟨payload, hpayload, hprepare⟩ := Option.bind_eq_some_iff.mp hprepare
  obtain ⟨sender, hsender, hprepare⟩ := Option.bind_eq_some_iff.mp hprepare
  obtain ⟨msg, hmsg, heq⟩ := Option.bind_eq_some_iff.mp hprepare
  cases heq
  rw [hbytes, Option.some.injEq] at hsender
  subst hsender
  exact ⟨rfl, _, bytes, payload, hbytes, hpayload, hmsg⟩

/-- What an entry sends goes to the peer it is of, and asks for the peers closest to the local
one. -/
theorem handleNode_findsNode {k k' : Kademlia M} {peer : Peer} {out : List Outgoing}
    (h : handleNode W k peer = some (k', out)) {o : Outgoing} (ho : o ∈ out) {info : PeerInfo}
    (hinfo : W.peer.fromBytes peer = some info) :
    o.dst = info.address ∧ FindsNode W k o.message := by
  rcases handleNode_cases h with ⟨-, -, rfl⟩ | ⟨info', hinfo', ⟨-, -, rfl⟩ |
    ⟨-, k₁, o', hupdate, hboot, rfl⟩⟩
  · cases ho
  · cases ho
  · rw [hinfo, Option.some.injEq] at hinfo'
    subst hinfo'
    obtain rfl := List.mem_singleton.mp ho
    -- storing the peer leaves the local one as it is
    obtain ⟨dest, -, rfl⟩ := updatePeer_eq_some.mp hupdate
    have hsent : o'.dst = info.address ∧ FindsNode W _ o'.message :=
      findsNode_of_bootstrap hboot (List.mem_singleton_self o')
    exact hsent

/-- Whatever the entries of a list send has a cause. -/
theorem nodesLoop_causes {k k' : Kademlia M} {nodes : Nodes} {out : List Outgoing}
    (h : (nodesLoop W).run k nodes = some (k', out)) : ∀ o ∈ out, o.cause ≠ none := by
  refine (nodesLoop W).run_history (A := fun _ => True)
    (P := fun _ _ out => ∀ o ∈ out, o.cause ≠ none) ?_ (fun o ho => nomatch ho)
    (fun _ _ => trivial) h
  intro s nodes out entry s' sent hprev _ hstep o ho
  rcases List.mem_append.mp ho with hold | hnew
  · exact hprev o hold
  · obtain ⟨info, -, hcause, -⟩ := handleNode_asks hstep hnew
    rw [hcause]
    exact Option.some_ne_none _

/-- The messages caused by entries of `Nodes` lists, with the ids of these as keys. -/
theorem Effects.emitsOnce {k k' : Kademlia M} {out : List Outgoing} (h : Effects W k k' out) :
    EmitsOnce Outgoing.cause k.routingTable.known k'.routingTable.known out := by
  induction h with
  | done k => exact .nil subset_rfl
  | tick k => exact .nil subset_rfl
  | update h => exact .nil (Effects.update (W := W) h).known_subset
  | send k h =>
    refine .singleton subset_rfl fun id hcause => ?_
    rw [h] at hcause
    cases hcause
  | node h =>
    have hgrows := (Effects.node h).known_subset
    rcases handleNode_cases h with ⟨-, -, rfl⟩ | ⟨info, -, ⟨-, -, rfl⟩ | ⟨-, k₁, o, -, -, rfl⟩⟩
    · exact .nil hgrows
    · exact .nil hgrows
    · refine .singleton hgrows fun id hcause => ?_
      obtain ⟨info', -, hcause', -, hnew, hknown⟩ := handleNode_asks h (List.mem_singleton_self _)
      rw [hcause', Option.some.injEq] at hcause
      subst hcause
      exact ⟨hnew, hknown⟩
  | trans h h' ih ih' => exact ih.trans ih'

/-- On the way from `k` to `k'`, the message is sent by the handling of an entry of a `Nodes` list,
in a state in which the id of the entry is in no bucket. -/
structure AsksNewcomer (W : KadWire) (k k' : Kademlia M) (out : List Outgoing) (o : Outgoing) where
  start : Kademlia M
  stop : Kademlia M
  before : List Outgoing
  after : List Outgoing
  entry : Peer
  info : PeerInfo
  reaches : Effects W k start before
  reads : W.peer.fromBytes entry = some info
  handles : handleNode W start entry = some (stop, [o])
  leaves : Effects W stop k' after
  split : out = before ++ [o] ++ after
  cause : o.cause = some info.id
  new : info.id ∉ start.routingTable.known

theorem Effects.asksNewcomer {k k' : Kademlia M} {out : List Outgoing} (h : Effects W k k' out)
    {o : Outgoing} (ho : o ∈ out) (hcause : o.cause ≠ none) :
    Nonempty (AsksNewcomer W k k' out o) := by
  induction h with
  | done k => cases ho
  | tick k => cases ho
  | update h => cases ho
  | send k h =>
    rw [List.mem_singleton.mp ho] at hcause
    exact absurd h hcause
  | node h =>
    obtain ⟨info, hread, hcause', rfl, hnew, -⟩ := handleNode_asks h ho
    exact ⟨_, _, [], [], _, info, .done _, hread, h, .done _, rfl, hcause', hnew⟩
  | trans h h' ih ih' =>
    rcases List.mem_append.mp ho with ho | ho
    · obtain ⟨a⟩ := ih ho
      refine ⟨{ a with after := _, leaves := .trans a.leaves h', split := ?_ }⟩
      exact (congrArg (· ++ _) a.split).trans (List.append_assoc _ _ _)
    · obtain ⟨a⟩ := ih' ho
      refine ⟨{ a with before := _, reaches := .trans h a.reaches, split := ?_ }⟩
      apply (congrArg (_ ++ ·) a.split).trans
      simp only [List.append_assoc]

/-- **Discovery does not flood**: whatever is sent while a `Nodes` list is handled has a cause; what
is sent for an entry is one request of the local peer for those closest to it, and is caused by the
id of the entry, which was in no bucket just before; in every run from a new table, all messages
with a cause are sent so, at most one of them for each id, and none for the local id. -/
theorem discovery_does_not_flood {depth now : Nat} {localInfo : PeerInfo}
    {pending : HashSet InnerKey} {draws : Nat → Draw} {events : List Event} {k : Kademlia M}
    {outs : List Outgoing}
    (hrun : (machine W depth).run (new localInfo now pending draws) events = some (k, outs)) :
    (∀ (s s' : Kademlia M) nodes out, (nodesLoop W).run s nodes = some (s', out) →
      ∀ o ∈ out, o.cause ≠ none) ∧
    (∀ (s s' : Kademlia M) entry out, handleNode W s entry = some (s', out) → ∀ o ∈ out,
      ∃ info, W.peer.fromBytes entry = some info ∧ o.cause = some info.id ∧
        info.id ∉ s.routingTable.known ∧ out = [o] ∧ o.dst = info.address ∧
        FindsNode W s o.message) ∧
    (∀ o ∈ outs, o.cause ≠ none →
      Nonempty (AsksNewcomer W (new localInfo now pending draws) k outs o)) ∧
    (∀ id, (outs.countP fun o => o.cause = some id) ≤ 1) ∧
    ∀ o ∈ outs, o.cause ≠ some localInfo.id := by
  have heffects := effects_of_run hrun
  refine ⟨fun s s' nodes out h => nodesLoop_causes h, fun s s' entry out h o ho => ?_,
    fun o ho hcause => heffects.asksNewcomer ho hcause, heffects.emitsOnce.once,
    fun o ho hcause => ?_⟩
  · obtain ⟨info, hread, hcause, hone, hnew, -⟩ := handleNode_asks h ho
    exact ⟨info, hread, hcause, hnew, hone, handleNode_findsNode h ho hread⟩
  · -- the local peer is in the first bucket
    have hnew := (heffects.emitsOnce.newcomer o ho _ hcause).1
    rw [new, RoutingTable.known_new] at hnew
    exact hnew rfl

/-! ## A list with repeats -/

open RoutingTable

/-- A far peer twice, and the local one. -/
def repeatedNodes : Nodes := [peerJson (peerAt 128 0), peerJson (peerAt 128 0), peerJson localPeer]

/-- A request of the local peer for the peers close to it. -/
def someRequest : Req where
  id := List.Vector.replicate 32 7
  sender := peerJson localPeer
  payload := rpcJson (.findNode (peerJson localPeer))

def repeatingResponse : Resp where
  request := reqJson someRequest
  receiver := peerJson (peerAt 128 0)
  payload := rpcJson (.nodes repeatedNodes)

def repeatingWire : KadWire :=
  .json localPeer [peerAt 128 0] [.nodes repeatedNodes] [someRequest] [repeatingResponse]

/-- A clock that ticks with every draw, and keys of equal bytes. -/
def someDraws (n : Nat) : Draw := ⟨n + 1, List.Vector.replicate 32 (UInt8.ofNat n)⟩

theorem planOf_repeating : planOf repeatingWire (.response (respJson repeatingResponse)) =
    ⟨none, .meet repeatedNodes⟩ := by
  have hread : readResponse repeatingWire (respJson repeatingResponse) =
      some (someRequest, some (.nodes repeatedNodes)) := readResponse_json _ _ _ _ _ _ _ rfl rfl
  rw [planOf, responsePlan, hread]
  rfl

theorem repeatingWire_faithful : repeatingWire.Faithful localPeer := KadWire.json_faithful _ _ _ _ _

theorem run_repeating : ∃ (k : Kademlia ListedNodes) (outs : List Outgoing),
    (machine repeatingWire 2).run (new localPeer 0 ∅ someDraws)
      [.handleMessage (.response (respJson repeatingResponse))] = some (k, outs) ∧
    outs.map (fun o => (o.dst, o.cause)) =
      [((peerAt 128 0).address, some (peerAt 128 0).id)] := by
  have hsent : ((nodesLoop repeatingWire).run
      (new localPeer 0 ∅ someDraws : Kademlia ListedNodes) repeatedNodes).map
        (fun r => r.2.map fun o => (o.dst, o.cause)) =
      some [((peerAt 128 0).address, some (peerAt 128 0).id)] := by
    decide +kernel
  obtain ⟨⟨k, outs⟩, hloop, hout⟩ := Option.map_eq_some_iff.mp hsent
  refine ⟨k, outs, run_of_execute repeatingWire_faithful ?_, hout⟩
  rw [planOf_repeating]
  exact hloop

/-- One request is sent, to the far peer. -/
theorem repeats_do_not_flood : ∃ (k : Kademlia ListedNodes) (o : Outgoing),
    (machine repeatingWire 2).run (new localPeer 0 ∅ someDraws)
      [.handleMessage (.response (respJson repeatingResponse))] = some (k, [o]) ∧
    o.dst = (peerAt 128 0).address ∧ o.cause = some (peerAt 128 0).id ∧
    FindsNode repeatingWire (new localPeer 0 ∅ someDraws : Kademlia ListedNodes) o.message ∧
    (∀ (s s' : Kademlia ListedNodes) nodes out,
      (nodesLoop repeatingWire).run s nodes = some (s', out) → ∀ o ∈ out, o.cause ≠ none) ∧
    (∀ (s s' : Kademlia ListedNodes) entry out, handleNode repeatingWire s entry = some (s', out) →
      ∀ o ∈ out, ∃ info, repeatingWire.peer.fromBytes entry = some info ∧
        o.cause = some info.id ∧ info.id ∉ s.routingTable.known ∧ out = [o] ∧
        o.dst = info.address ∧ FindsNode repeatingWire s o.message) ∧
    (∀ o' ∈ [o], o'.cause ≠ none →
      Nonempty (AsksNewcomer repeatingWire (new localPeer 0 ∅ someDraws) k [o] o')) ∧
    (∀ id, ([o].countP fun o => o.cause = some id) ≤ 1) ∧
    ∀ o' ∈ [o], o'.cause ≠ some localPeer.id := by
  obtain ⟨k, outs, hrun, hout⟩ := run_repeating
  obtain ⟨o, rfl, hsame⟩ := List.map_eq_singleton_iff.mp hout
  obtain ⟨hdst, hcause⟩ := Prod.mk.inj hsame
  obtain ⟨hcauses, hasks, hnewcomer, honce, hlocal⟩ := discovery_does_not_flood hrun
  refine ⟨k, o, hrun, hdst, hcause, ?_, hcauses, hasks, hnewcomer, honce, hlocal⟩
  have hcaused : o.cause ≠ none := hcause ▸ Option.some_ne_none _
  obtain ⟨a⟩ := hnewcomer o (List.mem_singleton_self _) hcaused
  obtain ⟨info, -, -, -, -, -, hfinds⟩ :=
    hasks _ _ _ _ a.handles o (List.mem_singleton_self _)
  -- the state the request is sent in has the same local peer
  have hself := (a.reaches.bucketed (bucketed_new localPeer 0)).2
  rw [FindsNode, hself] at hfinds
  exact hfinds

end Kademlia

end Udp2p
