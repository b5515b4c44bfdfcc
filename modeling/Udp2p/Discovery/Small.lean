import Mathlib.Data.Finset.Card
import Udp2p.Discovery.Provenance

/-!
# Can few peers exhaust a routing table?

No: a bucket holds a peer once, so where there are fewer peers than a bucket may hold, no bucket is
ever full, every peer is stored under its first digit, and whatever is asked of the table it can do.
An instance that hears of no more peers than that does not panic.

* `Kept.sizesLe`, `Kept.length_name`, `Kept.totalPeers_le` — the buckets, their names and peers.
* `Small.execute_returns`, `small_of_run` — messages that speak of the few peers are handled, in
  every run.
-/

namespace Udp2p

namespace RoutingTable

open PrefixTree

variable {M : Type} [LinkedHashMap PeerId PeerInfo M] {peers : Finset PeerInfo}

/-- A table kept by updates, of peers of a finite set. -/
structure Kept (t : RoutingTable M) (peers : Finset PeerInfo) : Prop where
  bucketed : t.Bucketed
  inner : InnerFull KBucket.isFull t.tree
  within : t.Within {peer | peer ∈ peers}

/-- A bucket holds every peer of the set once at most. -/
theorem Kept.sizesLe {t : RoutingTable M} (h : t.Kept peers) : t.SizesLe peers.card := by
  intro k b hb
  have hids : b.entries.map Prod.fst ⊆ peers.toList.map PeerInfo.id := by
    intro id hid
    obtain ⟨e, he, rfl⟩ := List.mem_map.mp hid
    rw [h.bucketed.keyed hb he]
    exact List.mem_map_of_mem (Finset.mem_toList.mpr (h.within k b e hb he))
  have hlen := b.nodup_keys.length_le_of_subset hids
  rw [List.length_map, List.length_map, Finset.length_toList] at hlen
  rw [KBucket.size_eq]
  exact hlen

/-- No bucket is full, so none is named under another. -/
theorem Kept.length_name {t : RoutingTable M} (h : t.Kept peers) (hfew : peers.card < maxBucketLen)
    {name : List Char} {b : KBucket M} (hb : t.tree.lookup name = some b) : name.length = 1 := by
  have hne : 1 ≤ name.length := (h.bucketed.named hb).1
  apply Nat.le_antisymm _ hne
  by_contra hlong
  have hsome : (t.tree.lookup name).isSome := hb ▸ rfl
  have htake : name.take 1 ≠ [] := by
    apply List.ne_nil_of_length_pos
    rw [List.length_take]
    omega
  obtain ⟨c, hc⟩ := Option.isSome_iff_exists.mp
    (h.bucketed.closed.isSome_of_prefix hsome (List.take_prefix 1 name) htake)
  have hproper : name.take 1 ≠ name := by
    intro heq
    have hlen := congrArg List.length heq
    rw [List.length_take] at hlen
    omega
  have hfull := h.inner _ name c hc hsome (List.take_prefix 1 name) hproper htake
  have hsize := h.sizesLe _ c hc
  rw [KBucket.isFull, decide_eq_true_eq] at hfull
  omega

theorem Kept.findsRoom {t : RoutingTable M} (h : t.Kept peers) (hfew : peers.card < maxBucketLen)
    (peer : PeerInfo) : t.FindsRoom peer := h.sizesLe.findsRoom hfew peer

/-- The peers closest to a node can be looked up. -/
theorem Kept.looks {t : RoutingTable M} (h : t.Kept peers) (hfew : peers.card < maxBucketLen)
    (node : PeerInfo) {name : List Char} {b : KBucket M} (hb : t.tree.lookup name = some b) :
    name.length ≤ (t.distance node).getBinary.length := by
  have hname := h.length_name hfew hb
  have hdistance := (t.distance node).length_getBinary_bounds.1
  omega

theorem Kept.getClosestPeers_isSome {t : RoutingTable M} (h : t.Kept peers)
    (hfew : peers.card < maxBucketLen) (node : PeerInfo) (count : Nat) :
    (t.getClosestPeers node count).isSome := by
  apply (getClosestPeers_isSome_iff h.bucketed).mpr
  exact Or.inr fun name b hb => h.looks hfew node hb

/-- No peer is held twice: a bucket holds it once, and it is stored under its first digit. -/
theorem Kept.nodup_getAllPeers {t : RoutingTable M} (h : t.Kept peers)
    (hfew : peers.card < maxBucketLen) : t.getAllPeers.Nodup := by
  rw [getAllPeers_eq, List.nodup_flatMap]
  constructor
  · intro e he
    obtain ⟨⟨name, b⟩, hb, rfl⟩ := List.mem_map.mp he
    have hlookup := AList.lookup_eq_some_iff.mpr hb
    -- in a bucket the ids differ
    have hids : (b.entries.map Prod.fst) = b.getNodes.map PeerInfo.id := by
      rw [KBucket.getNodes, List.map_map]
      exact List.map_congr_left fun e he => h.bucketed.keyed hlookup he
    exact List.Nodup.of_map PeerInfo.id (hids ▸ b.nodup_keys)
  · -- a peer in two buckets is stored under the first digit of one distance
    have hnames : t.tree.entries.Pairwise fun e e' => e.1 ≠ e'.1 :=
      List.nodupKeys_iff_pairwise.mp t.tree.nodupKeys
    rw [named, List.pairwise_map]
    refine hnames.imp_of_mem fun {e e'} he he' hne => ?_
    intro peer hpeer hpeer'
    obtain ⟨x, hx, rfl⟩ := List.mem_map.mp hpeer
    obtain ⟨x', hx', heq⟩ := List.mem_map.mp hpeer'
    have hb := AList.lookup_eq_some_iff.mpr he
    have hb' := AList.lookup_eq_some_iff.mpr he'
    have hpre := h.bucketed.prefixed hb hx
    have hpre' := heq ▸ h.bucketed.prefixed hb' hx'
    apply hne
    apply eq_of_prefix_of_length_eq hpre hpre'
    rw [h.length_name hfew hb, h.length_name hfew hb']

theorem Kept.mem_getAllPeers {t : RoutingTable M} (h : t.Kept peers) {peer : PeerInfo}
    (hpeer : peer ∈ t.getAllPeers) : peer ∈ peers := h.within.mem_getAllPeers hpeer

/-- There are no more peers in the table than there are. -/
theorem Kept.totalPeers_le {t : RoutingTable M} (h : t.Kept peers)
    (hfew : peers.card < maxBucketLen) : t.totalPeers ≤ peers.card := by
  have hsub : t.getAllPeers ⊆ peers.toList := fun peer hpeer =>
    Finset.mem_toList.mpr (h.mem_getAllPeers hpeer)
  have hlen := (h.nodup_getAllPeers hfew).length_le_of_subset hsub
  rw [length_getAllPeers, Finset.length_toList] at hlen
  exact hlen

/-- If there are no more peers than asked for, all those of the table are closest. -/
theorem Kept.mem_closest {t : RoutingTable M} (h : t.Kept peers) (hfew : peers.card < maxBucketLen)
    {node : PeerInfo} {count : Nat} (hcount : peers.card ≤ count) {closestPeers : List PeerInfo}
    (hclosest : t.getClosestPeers node count = some closestPeers) {peer : PeerInfo}
    (hpeer : peer ∈ t.getAllPeers) : peer ∈ closestPeers := by
  obtain ⟨hlen, rest, hperm⟩ := perm_of_getClosestPeers hclosest
  have htotal := h.totalPeers_le hfew
  have hrest : rest = [] := by
    have hsum := hperm.length_eq
    rw [List.length_append, length_getAllPeers] at hsum
    exact List.length_eq_zero_iff.mp (by omega)
  rw [hrest, List.append_nil] at hperm
  exact hperm.mem_iff.mpr hpeer

theorem kept_new {localInfo : PeerInfo} (hself : localInfo ∈ peers) (now : Nat) :
    (new localInfo now : RoutingTable M).Kept peers :=
  ⟨bucketed_new localInfo now, innerFull_new localInfo now, within_new hself now⟩

theorem Kept.put {t : RoutingTable M} (h : t.Kept peers) {peer : PeerInfo} (hpeer : peer ∈ peers)
    {k : List Char} (hk : t.destination peer = some k) (now : Nat) :
    (t.put peer now k).Kept peers :=
  ⟨h.bucketed.put hk now, h.inner.insert_place h.bucketed.closed hk _, h.within.put hpeer now k⟩

end RoutingTable

namespace Kademlia

open RoutingTable (kept_new)

variable {M : Type} [LinkedHashMap PeerId PeerInfo M] {W : KadWire} {localInfo : PeerInfo}
  {peers : Finset PeerInfo}

/-- Updates keep inner buckets full. -/
theorem Effects.innerFull {k k' : Kademlia M} {out : List Outgoing} (h : Effects W k k' out)
    (hbucketed : k.routingTable.Bucketed)
    (hinner : PrefixTree.InnerFull KBucket.isFull k.routingTable.tree) :
    PrefixTree.InnerFull KBucket.isFull k'.routingTable.tree := by
  have hboth := h.invariant (P := fun s => s.routingTable.Bucketed ∧
    PrefixTree.InnerFull KBucket.isFull s.routingTable.tree) (fun _ hs => hs) ?_ ⟨hbucketed, hinner⟩
  · exact hboth.2
  · intro s s' peer hs hupdate
    obtain ⟨dest, hdest, rfl⟩ := updatePeer_eq_some.mp hupdate
    exact ⟨hs.1.put hdest _, hs.2.insert_place hs.1.closed hdest _⟩

/-- An instance whose table is kept, with few peers. -/
structure Small (k : Kademlia M) (localInfo : PeerInfo) (peers : Finset PeerInfo) : Prop where
  kept : k.routingTable.Kept peers
  self : k.routingTable.localInfo = localInfo
  citizen : localInfo ∈ peers

theorem Small.knows {k : Kademlia M} (h : k.Small localInfo peers) :
    k.Knows {peer | peer ∈ peers} := ⟨h.kept.within, h.self ▸ h.citizen⟩

theorem Small.tick {k : Kademlia M} (h : k.Small localInfo peers) :
    k.tick.Small localInfo peers := ⟨h.kept, h.self, h.citizen⟩

theorem Small.updatePeer {k k' : Kademlia M} (h : k.Small localInfo peers) {peer : PeerInfo}
    (hpeer : peer ∈ peers) (hupdate : k.updatePeer peer = some k') : k'.Small localInfo peers := by
  obtain ⟨dest, hdest, rfl⟩ := updatePeer_eq_some.mp hupdate
  exact ⟨h.kept.put hpeer hdest _, h.self, h.citizen⟩

theorem Small.handleNode {k k' : Kademlia M} (hC : W.Keeps {peer | peer ∈ peers})
    (h : k.Small localInfo peers) {bytes : Peer}
    (hbytes : ∀ info, W.peer.fromBytes bytes = some info → info ∈ peers) {out : List Outgoing}
    (hstep : handleNode W k bytes = some (k', out)) : k'.Small localInfo peers := by
  rcases handleNode_cases hstep with ⟨-, rfl, -⟩ | ⟨info, hinfo, ⟨-, hupdate, -⟩ |
    ⟨-, k₁, o, hupdate, hboot, -⟩⟩
  · exact h
  · exact h.updatePeer (hbytes info hinfo) hupdate
  · have h₁ := h.updatePeer (hbytes info hinfo) hupdate
    obtain ⟨message, peer, self, hpeer, hself, hupdate', -⟩ := bootstrap_eq_some hboot
    rw [h₁.self] at hpeer
    rw [hC.peer _ h.citizen _ hpeer, Option.some.injEq] at hself
    subst hself
    exact h₁.tick.updatePeer h.citizen hupdate'

/-- **What is to be done** with few peers fits. -/
theorem Small.fits (hC : W.Keeps {peer | peer ∈ peers}) (hfew : peers.card < maxBucketLen)
    {k : Kademlia M} (h : k.Small localInfo peers) {todo : Todo}
    (habout : todo.About W {peer | peer ∈ peers}) : Fits W k todo := by
  cases todo with
  | panic => exact habout
  | lost => trivial
  | nothing => trivial
  | add peer => exact h.kept.findsRoom hfew peer
  | lookup node request =>
    exact ⟨Or.inr fun name b hb => h.kept.looks hfew node hb, h.kept.findsRoom hfew node⟩
  | pong sender request => trivial
  | meet nodes =>
    -- the instance stays small from entry to entry
    refine (nodesLoop W).always_of_invariant (P := fun s => s.Small localInfo peers)
      (A := fun bytes => ∀ info, W.peer.fromBytes bytes = some info → info ∈ peers)
      (fun s bytes s' out hs hbytes hstep => hs.handleNode hC hbytes hstep) ?_ h habout
    intro s bytes hs hbytes info hinfo
    refine ⟨hs.kept.findsRoom hfew info, fun _ s' hupdate => ?_⟩
    exact (hs.updatePeer (hbytes info hinfo) hupdate).kept.findsRoom hfew _

/-- **Every message** that speaks of the few peers is handled. -/
theorem Small.execute_returns (hW : W.Faithful localInfo) (hC : W.Keeps {peer | peer ∈ peers})
    (hfew : peers.card < maxBucketLen) {k : Kademlia M} (h : k.Small localInfo peers) {plan : Plan}
    (habout : plan.About W {peer | peer ∈ peers}) : (execute W k plan).isSome := by
  apply (execute_isSome_iff hW h.self h.kept.bucketed plan).mpr
  unfold storeSender
  cases hsender : plan.sender with
  | none => exact ⟨k, rfl, h.fits hC hfew habout.todo⟩
  | some sender =>
    obtain ⟨k', hupdate⟩ := Option.isSome_iff_exists.mp
      (updatePeer_isSome_iff.mpr (h.kept.findsRoom hfew sender))
    have h' := h.updatePeer (habout.sender sender hsender) hupdate
    exact ⟨k', hupdate, h'.fits hC hfew habout.todo⟩

/-- Handling it keeps the instance small. -/
theorem Small.execute {k k' : Kademlia M} (hC : W.Keeps {peer | peer ∈ peers})
    (h : k.Small localInfo peers) {plan : Plan} (habout : plan.About W {peer | peer ∈ peers})
    {out : List Outgoing} (hexec : Kademlia.execute W k plan = some (k', out)) :
    k'.Small localInfo peers := by
  have hknows := (h.knows.execute hC habout hexec).1
  obtain ⟨k₁, hstore, hact⟩ := Option.bind_eq_some_iff.mp hexec
  have heffects : Effects W k k' out := .trans (.storeSender hstore) (.act hact)
  obtain ⟨hbucketed, hself⟩ := heffects.bucketed h.kept.bucketed
  have hinner := heffects.innerFull h.kept.bucketed h.kept.inner
  exact ⟨⟨hbucketed, hinner, hknows.table⟩, hself.trans h.self, h.citizen⟩

theorem Small.bootstrap_returns (hW : W.Faithful localInfo) (hfew : peers.card < maxBucketLen)
    {k : Kademlia M} (h : k.Small localInfo peers) (addr : SocketAddr) :
    (bootstrap W k addr).isSome :=
  (bootstrap_isSome_iff hW h.self addr).mpr (h.kept.findsRoom hfew localInfo)

theorem Small.bootstrap {k k' : Kademlia M} (hC : W.Keeps {peer | peer ∈ peers})
    (h : k.Small localInfo peers) {addr : SocketAddr} {out : List Outgoing}
    (hboot : Kademlia.bootstrap W k addr = some (k', out)) : k'.Small localInfo peers := by
  have hknows := (h.knows.bootstrap hC hboot).1
  obtain ⟨hbucketed, hself⟩ := (Effects.bootstrap hboot).bucketed h.kept.bucketed
  have hinner := (Effects.bootstrap hboot).innerFull h.kept.bucketed h.kept.inner
  exact ⟨⟨hbucketed, hinner, hknows.table⟩, hself.trans h.self, h.citizen⟩

/-! ## Runs -/

theorem small_new (hself : localInfo ∈ peers) (now : Nat) (pending : HashSet InnerKey)
    (draws : Nat → Draw) : (new localInfo now pending draws : Kademlia M).Small localInfo peers :=
  ⟨kept_new hself now, rfl, hself⟩

/-- A step about the few peers returns, in a small instance. -/
theorem Small.step (hW : W.Faithful localInfo) (hC : W.Keeps {peer | peer ∈ peers})
    (hfew : peers.card < maxBucketLen) (depth : Nat) {k : Kademlia M} (h : k.Small localInfo peers)
    {event : Event} (habout : event.About W {peer | peer ∈ peers}) :
    ∃ k' out, (machine W (depth + 2)).step k event = some (k', out) ∧
      k'.Small localInfo peers := by
  cases event with
  | bootstrap addr =>
    obtain ⟨⟨k', out⟩, hboot⟩ := Option.isSome_iff_exists.mp (h.bootstrap_returns hW hfew addr)
    exact ⟨k', out, hboot, h.bootstrap hC hboot⟩
  | handleMessage message =>
    obtain ⟨⟨k', out⟩, hexec⟩ :=
      Option.isSome_iff_exists.mp (h.execute_returns hW hC hfew habout)
    refine ⟨k', out, ?_, h.execute hC habout hexec⟩
    show handleMessage W (depth + 2) k message = _
    rw [handleMessage_eq hW]
    exact hexec

/-- **Runs** about the few peers return, and every state reached is small. -/
theorem small_of_run (hW : W.Faithful localInfo) (hC : W.Keeps {peer | peer ∈ peers})
    (hfew : peers.card < maxBucketLen) (hself : localInfo ∈ peers) {depth now : Nat}
    {pending : HashSet InnerKey} {draws : Nat → Draw} {events : List Event}
    (habout : ∀ event ∈ events, event.About W {peer | peer ∈ peers}) :
    ∃ (k : Kademlia M) (outs : List Outgoing), (machine W (depth + 2)).run
      (new localInfo now pending draws) events = some (k, outs) ∧ k.Small localInfo peers :=
  (machine W (depth + 2)).run_total (P := fun k _ => k.Small localInfo peers)
    (fun _ _ _ h hevent => h.step hW hC hfew depth hevent)
    (small_new hself now pending draws) habout

end Kademlia

end Udp2p
