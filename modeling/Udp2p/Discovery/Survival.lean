import Udp2p.Discovery.Flooding

/-!
# Does the dispatcher survive any message?

Bytes that do not decode should do no harm. They do in two ways: some are unwrapped, and the sender
of a request is stored before it is known whether its RPC decodes.

* `sameTable_put_iff` — storing a peer changes nothing only if it is stored last already, at the
  same clock reading.
* `message_survived_iff` — exactly which messages are survived, in every state reached.
* `sender_unwrapped` — a request whose sender does not decode is not.
-/

namespace Udp2p

namespace RoutingTable

variable {M : Type} [LinkedHashMap PeerId PeerInfo M]

/-- The buckets have the same names, entries in the same order, and times. -/
def SameTable (t t' : RoutingTable M) : Prop :=
  t'.localInfo = t.localInfo ∧
  ∀ name, (t'.tree.lookup name).map (fun b => (b.entries, b.lastUpdated)) =
    (t.tree.lookup name).map fun b => (b.entries, b.lastUpdated)

theorem SameTable.refl (t : RoutingTable M) : t.SameTable t := ⟨rfl, fun _ => rfl⟩

/-- A peer is stored last in its bucket, which was updated just now. -/
def Latest (t : RoutingTable M) (peer : PeerInfo) (now : Nat) : Prop :=
  ∃ name b, t.destination peer = some name ∧ t.tree.lookup name = some b ∧
    b.entries.getLast? = some (peer.id, peer) ∧ b.lastUpdated = now

/-- An upsert leaves the entries of a bucket as they are iff its peer is the last of them. -/
theorem entries_upsert_eq_iff {b : KBucket M} {peer : PeerInfo} {now : Nat} :
    (b.upsert peer now).entries = b.entries ↔ b.entries.getLast? = some (peer.id, peer) := by
  rw [KBucket.entries_upsert]
  constructor
  · intro h
    rw [← h]
    exact List.getLast?_concat
  · intro h
    obtain ⟨l, hl⟩ := List.getLast?_eq_some_iff.mp h
    have hnodup := b.nodup_keys
    rw [hl, List.map_append, List.nodup_append] at hnodup
    have hothers : l.filter (fun e => e.1 ≠ peer.id) = l := by
      rw [List.filter_eq_self]
      intro e he
      have hne := hnodup.2.2 e.1 (List.mem_map_of_mem he) peer.id (by simp)
      simpa using hne
    rw [hl, List.filter_append, hothers]
    simp

/-- **Storing a peer** leaves the table as it was iff the peer is the latest. -/
theorem sameTable_put_iff {t : RoutingTable M} {peer : PeerInfo} {now : Nat} {name : List Char}
    (hname : t.destination peer = some name) :
    t.SameTable (t.put peer now name) ↔ t.Latest peer now := by
  constructor
  · intro h
    have hbucket := h.2 name
    rw [lookup_put, if_pos rfl, Option.map_some, eq_comm, Option.map_eq_some_iff] at hbucket
    obtain ⟨b, hb, heq⟩ := hbucket
    rw [bucketAt, hb, Option.getD_some, Prod.mk.injEq] at heq
    exact ⟨name, b, hname, hb, entries_upsert_eq_iff.mp heq.1.symm, heq.2⟩
  · intro h
    obtain ⟨name', b, hname', hb, hlast, hnow⟩ := h
    obtain rfl := Option.some.inj (hname'.symm.trans hname)
    refine ⟨rfl, fun name => ?_⟩
    rw [lookup_put]
    split
    · next heq =>
      rw [heq, bucketAt, hb, Option.getD_some, Option.map_some, Option.map_some,
        entries_upsert_eq_iff.mpr hlast, hnow]
      rfl
    · rfl

end RoutingTable

namespace Kademlia

variable {M : Type} [LinkedHashMap PeerId PeerInfo M] {W : KadWire} {localInfo : PeerInfo}

/-- Some bytes do not decode to what the branch they are dispatched to needs. -/
def Plan.Undecoded (plan : Plan) : Prop := plan.todo = .panic ∨ plan.todo = .lost

/-- Handling the message returns and, if it does not decode, leaves the table as it was and sends
nothing. -/
def Survives (W : KadWire) (depth : Nat) (k : Kademlia M) (message : KadMessage) : Prop :=
  ∃ k' out, handleMessage W depth k message = some (k', out) ∧
    ((planOf W message).Undecoded → k.routingTable.SameTable k'.routingTable ∧ out = [])

/-- The sender finds room, and then what is to be done fits; if it is lost, the sender is the latest
peer already. -/
def Healthy (W : KadWire) (k : Kademlia M) (plan : Plan) : Prop :=
  (∃ k', storeSender k plan = some k' ∧ Fits W k' plan.todo) ∧
  (plan.todo = .lost → ∀ sender, plan.sender = some sender →
    k.routingTable.Latest sender (k.draws 0).now)

/-- Storing the sender leaves the table as it was iff there is none, or it is the latest peer. -/
theorem sameTable_storeSender_iff {k k' : Kademlia M} {plan : Plan}
    (h : storeSender k plan = some k') : k.routingTable.SameTable k'.routingTable ↔
      ∀ sender, plan.sender = some sender → k.routingTable.Latest sender (k.draws 0).now := by
  unfold storeSender at h
  cases hsender : plan.sender with
  | none =>
    rw [hsender] at h
    cases h
    exact iff_of_true (.refl _) fun _ h => nomatch h
  | some sender =>
    rw [hsender] at h
    change k.updatePeer sender = some k' at h
    obtain ⟨dest, hdest, rfl⟩ := updatePeer_eq_some.mp h
    simp only [Option.some.injEq, forall_eq']
    exact RoutingTable.sameTable_put_iff hdest

/-- **A message is survived** iff its plan is healthy. -/
theorem survives_iff (hW : W.Faithful localInfo) {k : Kademlia M}
    (hself : k.routingTable.localInfo = localInfo) (hbucketed : k.routingTable.Bucketed)
    (depth : Nat) (message : KadMessage) :
    Survives W (depth + 2) k message ↔ Healthy W k (planOf W message) := by
  have hreturns := execute_isSome_iff hW hself hbucketed (planOf W message)
  unfold Survives Healthy
  rw [handleMessage_eq hW, ← hreturns]
  constructor
  · intro h
    obtain ⟨k', out, hexec, hkept⟩ := h
    refine ⟨Option.isSome_iff_exists.mpr ⟨_, hexec⟩, fun hlost => ?_⟩
    obtain ⟨k₁, hstore, hact⟩ := Option.bind_eq_some_iff.mp hexec
    rw [hlost] at hact
    cases hact
    exact (sameTable_storeSender_iff hstore).mp (hkept (Or.inr hlost)).1
  · intro h
    obtain ⟨hsome, hlatest⟩ := h
    obtain ⟨⟨k', out⟩, hexec⟩ := Option.isSome_iff_exists.mp hsome
    refine ⟨k', out, hexec, fun hundecoded => ?_⟩
    obtain ⟨k₁, hstore, hact⟩ := Option.bind_eq_some_iff.mp hexec
    rcases hundecoded with hpanic | hlost
    · rw [hpanic] at hact
      cases hact
    · rw [hlost] at hact
      cases hact
      exact ⟨(sameTable_storeSender_iff hstore).mpr (hlatest hlost), rfl⟩

/-- **The dispatcher survives a message**, exactly: in every state reached, iff its plan is healthy.
Entries of `Nodes` lists that do not decode are passed over. -/
theorem message_survived_iff (hW : W.Faithful localInfo) {depth now : Nat}
    {pending : HashSet InnerKey} {draws : Nat → Draw} {events : List Event} {k : Kademlia M}
    {outs : List Outgoing}
    (hrun : (machine W depth).run (new localInfo now pending draws) events = some (k, outs)) :
    (∀ depth' message, Survives W (depth' + 2) k message ↔ Healthy W k (planOf W message)) ∧
    ∀ entry, W.peer.fromBytes entry = none → handleNode W k entry = some (k, []) := by
  obtain ⟨hbucketed, hself⟩ := bucketed_of_run hrun
  refine ⟨fun depth' message => survives_iff hW hself hbucketed depth' message, fun entry h => ?_⟩
  rw [handleNode, h]

/-! ## A request without a sender -/

open RoutingTable

theorem repeating_survived_iff : ∃ (k : Kademlia ListedNodes) (outs : List Outgoing),
    (machine repeatingWire 2).run (new localPeer 0 ∅ someDraws)
      [.handleMessage (.response (respJson repeatingResponse))] = some (k, outs) ∧
    (∀ depth' message, Survives repeatingWire (depth' + 2) k message ↔
      Healthy repeatingWire k (planOf repeatingWire message)) ∧
    ∀ entry, repeatingWire.peer.fromBytes entry = none →
      handleNode repeatingWire k entry = some (k, []) := by
  obtain ⟨k, outs, hrun, -⟩ := run_repeating
  exact ⟨k, outs, hrun, message_survived_iff repeatingWire_faithful hrun⟩

/-- A request with nothing where its sender should be. -/
def senderlessRequest : Req := { someRequest with sender := [] }

def senderlessWire : KadWire := .json localPeer [] [] [senderlessRequest] []

theorem planOf_senderless : planOf senderlessWire (.request (reqJson senderlessRequest)) =
    ⟨none, .panic⟩ := by
  have hreq : senderlessWire.req.fromBytes (reqJson senderlessRequest) = some senderlessRequest :=
    ByteRep.reading_head _ _ _
  have hsender : senderlessWire.peer.fromBytes senderlessRequest.sender = none := by
    rw [Option.eq_none_iff_forall_ne_some]
    intro info hinfo
    exact peerJson_ne_nil info (ByteRep.reading_eq_some hinfo).2
  rw [planOf, requestPlan, hreq]
  simp only [hsender]

/-- The sender is unwrapped: an empty table with room for everyone does not help. -/
theorem sender_unwrapped :
    ¬ ∀ (W : KadWire) (localInfo : PeerInfo), W.Faithful localInfo →
      ∀ (depth now : Nat) (pending : HashSet InnerKey) (draws : Nat → Draw) (events : List Event)
        (k : Kademlia ListedNodes) (outs : List Outgoing),
        (machine W depth).run (new localInfo now pending draws) events = some (k, outs) →
        (∀ peer, k.routingTable.FindsRoom peer) → ∀ message, Survives W 2 k message := by
  intro hall
  have hfaithful : senderlessWire.Faithful localPeer := KadWire.json_faithful _ _ _ _ _
  have hroom : ∀ peer, (new localPeer 0 ∅ someDraws : Kademlia ListedNodes).routingTable.FindsRoom
      peer := (sizesLe_new localPeer 0).findsRoom (by decide)
  obtain ⟨k', out, hhandle, -⟩ := hall _ _ hfaithful 2 0 ∅ someDraws [] _ [] rfl hroom
    (.request (reqJson senderlessRequest))
  rw [handleMessage_eq hfaithful 0, planOf_senderless] at hhandle
  cases hhandle

end Kademlia

end Udp2p
