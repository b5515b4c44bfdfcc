import Udp2p.Discovery.Closest
import Udp2p.Discovery.Duplicates

/-!
# Does `remove_peer` undo an insertion?

Insertion goes to the first prefix with room, removal to a prefix whose length is computed from the
leading zeros of the distance and the number of buckets. The two agree by chance only.

* `removalPrefix_eq_some_iff` — the bucket a peer is removed from.
* `removePeer_undoes_iff` — removal undoes insertion iff that bucket, and no other, holds the peer.
* `local_peer_not_removed` — with a second bucket in the table, the local peer is missed.
-/

namespace Udp2p

namespace RoutingTable

open PrefixTree

variable {M : Type} [LinkedHashMap PeerId PeerInfo M]

/-- The bucket named `name` is on the path of the peer, as deep as the leading zeros of the distance
and the number of buckets allow. -/
def AtRemovalDepth (t : RoutingTable M) (peer : PeerInfo) (name : List Char) : Prop :=
  name <+: (t.distance peer).getBinary ∧
    name.length = min ((t.distance peer).leadingZeros + 1) t.tree.len

omit [LinkedHashMap PeerId PeerInfo M] in
theorem removalPrefix_eq_some_iff {t : RoutingTable M} (hlen : 0 < t.tree.len) {peer : PeerInfo}
    {name : List Char} : t.removalPrefix peer.key = some name ↔ t.AtRemovalDepth peer name := by
  have hdepth : min (t.distance peer).leadingZeros (t.tree.len - 1) + 1 =
      min ((t.distance peer).leadingZeros + 1) t.tree.len := by omega
  unfold removalPrefix AtRemovalDepth
  rw [if_neg (Nat.ne_of_gt hlen), ← hdepth]
  show (t.distance peer).getPrefix (min (t.distance peer).leadingZeros (t.tree.len - 1)) =
    some name ↔ _
  rw [Key.getPrefix_eq]
  generalize min (t.distance peer).leadingZeros (t.tree.len - 1) = index
  constructor
  · intro h
    split at h
    · next hlt =>
      cases h
      exact ⟨List.take_prefix _ _, by rw [List.length_take]; omega⟩
    · cases h
  · intro h
    obtain ⟨hpre, hname⟩ := h
    have hle := hpre.length_le
    rw [if_pos (by omega), ← hname, ← List.prefix_iff_eq_take.mp hpre]

omit [LinkedHashMap PeerId PeerInfo M] in
/-- Two buckets at the removal depth of a peer are one. -/
theorem AtRemovalDepth.unique {t : RoutingTable M} {peer : PeerInfo} {name name' : List Char}
    (h : t.AtRemovalDepth peer name) (h' : t.AtRemovalDepth peer name') : name = name' :=
  eq_of_prefix_of_length_eq h.1 h'.1 (h.2.trans h'.2.symm)

/-- The peer is gone, and the entries of other ids are where they were. -/
def Removed (t t' : RoutingTable M) (peer : PeerInfo) : Prop :=
  t'.isNew peer = true ∧ ∀ name b e, t.tree.lookup name = some b → e ∈ b.entries →
    e.1 ≠ peer.id → ∃ b', t'.tree.lookup name = some b' ∧ e ∈ b'.entries

/-- What is left where: one bucket loses the peer. -/
theorem removePeer_of_prefix {t : RoutingTable M} {peer : PeerInfo} {pre : List Char}
    (hpre : t.removalPrefix peer.key = some pre) : ∃ t', t.removePeer peer = some t' ∧
      ∀ name, t'.tree.lookup name =
        (t.tree.lookup name).map fun b => if name = pre then (b.removePeer peer).2 else b := by
  rw [removePeer, hpre]
  simp only [Option.bind_eq_bind, Option.bind_some]
  cases hb : t.tree.lookup pre with
  | none =>
    refine ⟨t, rfl, fun name => ?_⟩
    by_cases heq : name = pre
    · subst heq
      rw [hb, Option.map_none]
    · simp [heq]
  | some b =>
    refine ⟨_, rfl, fun name => ?_⟩
    rw [AList.lookup_insert_ite]
    by_cases heq : name = pre
    · subst heq
      simp [hb]
    · simp [heq]

/-- The prefix a removal looked at. -/
theorem lookup_of_removePeer {t t' : RoutingTable M} {peer : PeerInfo}
    (h : t.removePeer peer = some t') : ∃ pre, t.removalPrefix peer.key = some pre ∧
      ∀ name, t'.tree.lookup name =
        (t.tree.lookup name).map fun b => if name = pre then (b.removePeer peer).2 else b := by
  obtain ⟨pre, hpre, -⟩ := Option.bind_eq_some_iff.mp h
  obtain ⟨t'', h', hlookup⟩ := removePeer_of_prefix hpre
  rw [h, Option.some.injEq] at h'
  subst h'
  exact ⟨pre, hpre, hlookup⟩

/-- A removal takes nothing away but the id of its peer, and that from one bucket. -/
theorem removePeer_frame {t t' : RoutingTable M} {peer : PeerInfo} {pre : List Char}
    (hlookup : ∀ name, t'.tree.lookup name =
      (t.tree.lookup name).map fun b => if name = pre then (b.removePeer peer).2 else b) :
    (∀ name, t'.HoldsAt name peer.id ↔ name ≠ pre ∧ t.HoldsAt name peer.id) ∧
    ∀ name b e, t.tree.lookup name = some b → e ∈ b.entries → e.1 ≠ peer.id →
      ∃ b', t'.tree.lookup name = some b' ∧ e ∈ b'.entries := by
  constructor
  · intro name
    unfold HoldsAt
    rw [hlookup]
    by_cases heq : name = pre
    · subst heq
      simp [KBucket.entries_removePeer]
    · simp [heq]
  · intro name b e hb he hne
    refine ⟨_, by rw [hlookup, hb, Option.map_some], ?_⟩
    split
    · rw [KBucket.entries_removePeer]
      exact List.mem_filter.mpr ⟨he, decide_eq_true hne⟩
    · exact he

/-- **Removal undoes insertion**, exactly: in every state reached, `remove_peer` returns, leaves a
stored peer unknown and the entries of other ids in their buckets iff every bucket that holds the id
is at the removal depth of the peer. -/
theorem removePeer_undoes_iff {localInfo : PeerInfo} {now : Nat} {ops : List Op}
    {t : RoutingTable M} {outs : List PeerInfo}
    (hrun : machine.run (new localInfo now) ops = some (t, outs)) {peer : PeerInfo}
    (hstored : ∃ name b, t.tree.lookup name = some b ∧ (peer.id, peer) ∈ b.entries) :
    (∃ t', t.removePeer peer = some t' ∧ Removed t t' peer) ↔
      ∀ name, t.HoldsAt name peer.id → t.AtRemovalDepth peer name := by
  have hbucketed : t.Bucketed :=
    machine.run_induct (fun _ _ _ _ ht hstep => ht.step hstep) (bucketed_new localInfo now) hrun
  have hlen : 0 < t.tree.len := by
    have hne := hbucketed.nonempty
    rw [AList.isEmpty, List.isEmpty_eq_false_iff] at hne
    exact List.length_pos_iff.mpr hne
  constructor
  · intro h name hname
    obtain ⟨t', hremove, hnew, -⟩ := h
    obtain ⟨pre, hpre, hlookup⟩ := lookup_of_removePeer hremove
    -- a bucket other than the one named by the prefix would still hold the peer
    have heq : name = pre := by
      by_contra hne
      have hstill := ((removePeer_frame hlookup).1 name).mpr ⟨hne, hname⟩
      have hold := isNew_eq_false_iff.mpr ⟨name, hstill⟩
      rw [hnew] at hold
      cases hold
    rw [heq]
    exact (removalPrefix_eq_some_iff hlen).mp hpre
  · intro h
    obtain ⟨name, b, hb, hmem⟩ := hstored
    have hname : t.HoldsAt name peer.id := ⟨b, hb, List.mem_map_of_mem hmem⟩
    have hdepth := h name hname
    obtain ⟨t', hremove, hlookup⟩ :=
      removePeer_of_prefix ((removalPrefix_eq_some_iff hlen).mpr hdepth)
    obtain ⟨hgone, hkept⟩ := removePeer_frame hlookup
    refine ⟨t', hremove, ?_, hkept⟩
    rw [← Bool.not_eq_false, isNew_eq_false_iff]
    intro hstill
    obtain ⟨name', hname'⟩ := hstill
    obtain ⟨hne, hheld⟩ := (hgone name').mp hname'
    exact hne ((h name' hheld).unique hdepth)

/-- The far peer of two, and the other one. -/
theorem far_peer_undone_iff :
    (∃ t', twoPeers.removePeer (peerAt 128 0) = some t' ∧ Removed twoPeers t' (peerAt 128 0)) ↔
      ∀ name, twoPeers.HoldsAt name (peerAt 128 0).id →
        twoPeers.AtRemovalDepth (peerAt 128 0) name :=
  removePeer_undoes_iff run_twoPeers ⟨['1'], _, rfl, by decide⟩

/-- The distance of the local peer to itself is zero, so the second bucket makes the removal look
for it under two zeros. -/
theorem local_peer_not_removed :
    ¬ ∀ (localInfo : PeerInfo) (now : Nat) (ops : List Op) (t : RoutingTable ListedNodes)
      (outs : List PeerInfo), (∀ op ∈ ops, ∀ peerKey, op ≠ .removeLru peerKey) →
      machine.run (new localInfo now) ops = some (t, outs) → ∀ peer,
      (∃ name b, t.tree.lookup name = some b ∧ (peer.id, peer) ∈ b.entries) →
      ∃ t', t.removePeer peer = some t' ∧ Removed t t' peer := by
  intro hall
  have hops : ∀ op ∈ updates [(peerAt 128 0, 0)], ∀ peerKey, op ≠ .removeLru peerKey := by
    intro op hop peerKey
    rw [updates, List.map_singleton, List.mem_singleton] at hop
    rw [hop]
    exact Op.noConfusion
  obtain ⟨t', hremove, hnew, -⟩ := hall _ _ _ _ _ hops run_twoPeers localPeer
    ⟨['0'], _, rfl, by decide⟩
  have hstill : (twoPeers.removePeer localPeer).map (fun t => t.isNew localPeer) = some false := by
    decide
  rw [hremove, Option.map_some, hnew] at hstill
  cases hstill

end RoutingTable

end Udp2p
