import Mathlib.Data.Set.Insert
import Udp2p.Discovery.Duplicates

/-!
# Which peers does the routing table know?

Seen from its ids alone, the routing table is a set that only grows: `known` maps a table to the set
of ids in its buckets, and an update inserts one id into that set, whichever bucket it ends in. What
a table knows therefore does not depend on the order of the updates.

* `known_put`, `known_of_run` — the table refines the growing set, step by step and over runs.
* `known_ids` — what `get_all_peers` and `is_new` say about them.
-/

namespace Udp2p

namespace RoutingTable

variable {M : Type} [LinkedHashMap PeerId PeerInfo M]

/-- The ids in some bucket. -/
def known (t : RoutingTable M) : Set PeerId := {id | ∃ k, t.HoldsAt k id}

theorem mem_known {t : RoutingTable M} {id : PeerId} : id ∈ t.known ↔ ∃ k, t.HoldsAt k id :=
  Iff.rfl

/-- `is_new` asks whether the id is known. -/
theorem isNew_iff {t : RoutingTable M} {peer : PeerInfo} :
    t.isNew peer = true ↔ peer.id ∉ t.known := by
  rw [mem_known, ← isNew_eq_false_iff, Bool.not_eq_false]

theorem known_new (localInfo : PeerInfo) (now : Nat) :
    (new localInfo now : RoutingTable M).known = {localInfo.id} := by
  ext id
  rw [mem_known, Set.mem_singleton_iff]
  constructor
  · intro h
    obtain ⟨k, b, hb, hid⟩ := h
    rw [lookup_new] at hb
    split at hb
    · cases hb
      rw [entries_first] at hid
      simpa using hid
    · cases hb
  · intro h
    refine ⟨['0'], _, by rw [lookup_new, if_pos rfl], ?_⟩
    rw [entries_first, h]
    exact List.mem_singleton_self _

/-- **Step.** An update makes one id known, and none unknown. -/
theorem known_put (t : RoutingTable M) (peer : PeerInfo) (now : Nat) (k : List Char) :
    (t.put peer now k).known = insert peer.id t.known := by
  ext id
  simp only [mem_known, Set.mem_insert_iff, holdsAt_put]
  constructor
  · intro h
    obtain ⟨j, ⟨-, rfl⟩ | hj⟩ := h
    · exact Or.inl rfl
    · exact Or.inr ⟨j, hj⟩
  · intro h
    rcases h with rfl | ⟨j, hj⟩
    · exact ⟨k, Or.inl ⟨rfl, rfl⟩⟩
    · exact ⟨j, Or.inr hj⟩

theorem known_updatePeer {t t' : RoutingTable M} {peer : PeerInfo} {now : Nat} {done : Bool}
    (h : t.updatePeer peer 0 now = some (t', done)) : t'.known = insert peer.id t.known := by
  rw [updatePeer_eq] at h
  obtain ⟨k, -, heq⟩ := Option.map_eq_some_iff.mp h
  cases heq
  exact known_put t peer now k

/-- **Run.** The ids known are those of the local peer and of the peers updated. -/
theorem known_of_run {localInfo : PeerInfo} {now : Nat} {ups : List (PeerInfo × Nat)}
    {t : RoutingTable M} {outs : List PeerInfo}
    (hrun : machine.run (new localInfo now) (updates ups) = some (t, outs)) :
    t.known = {id | id = localInfo.id ∨ ∃ u ∈ ups, u.1.id = id} := by
  induction ups using List.reverseRecOn generalizing t outs with
  | nil =>
    cases hrun
    rw [known_new]
    ext id
    simp
  | append_singleton ups u ih =>
    obtain ⟨s, k, hs, -, rfl⟩ := run_updates_concat hrun
    rw [known_put, ih hs]
    ext id
    simp only [Set.mem_insert_iff, Set.mem_ofPred_eq, List.mem_append, List.mem_singleton]
    constructor
    · intro h
      rcases h with rfl | hlocal | ⟨v, hv, rfl⟩
      · exact Or.inr ⟨u, Or.inr rfl, rfl⟩
      · exact Or.inl hlocal
      · exact Or.inr ⟨v, Or.inl hv, rfl⟩
    · intro h
      rcases h with hlocal | ⟨v, hv | rfl, rfl⟩
      · exact Or.inr (Or.inl hlocal)
      · exact Or.inr (Or.inr ⟨v, hv, rfl⟩)
      · exact Or.inl rfl

/-- In a well-formed table, the peers returned by `get_all_peers` bear the ids known. -/
theorem Bucketed.mem_ids_getAllPeers {t : RoutingTable M} (h : t.Bucketed) {id : PeerId} :
    id ∈ t.getAllPeers.map PeerInfo.id ↔ id ∈ t.known := by
  simp only [getAllPeers, List.mem_map, List.mem_flatten, KBucket.getNodes, mem_known]
  constructor
  · intro hid
    obtain ⟨p, ⟨nodes, ⟨e, he, rfl⟩, hp⟩, rfl⟩ := hid
    obtain ⟨e', he', rfl⟩ := List.mem_map.mp hp
    have hb := AList.lookup_eq_some_iff.mpr he
    refine ⟨e.1, e.2, hb, ?_⟩
    rw [← h.keyed hb he']
    exact List.mem_map_of_mem he'
  · intro hid
    obtain ⟨k, b, hb, hmem⟩ := hid
    obtain ⟨e, he, rfl⟩ := List.mem_map.mp hmem
    refine ⟨e.2, ⟨b.getNodes, ⟨⟨k, b⟩, AList.lookup_eq_some_iff.mp hb, rfl⟩, ?_⟩,
      (h.keyed hb he).symm⟩
    exact List.mem_map_of_mem he

/-- **No peer is lost, and order does not matter**: `get_all_peers` finds the local id and the ids
of the peers updated, `is_new` denies exactly these, and updating the same peers in another order
makes the same ids known. -/
theorem known_ids {localInfo : PeerInfo} {now : Nat} {ups : List (PeerInfo × Nat)}
    {t : RoutingTable M} {outs : List PeerInfo}
    (hrun : machine.run (new localInfo now) (updates ups) = some (t, outs)) :
    (∀ id, id ∈ t.getAllPeers.map PeerInfo.id ↔ id = localInfo.id ∨ ∃ u ∈ ups, u.1.id = id) ∧
    (∀ peer, t.isNew peer = false ↔ peer.id = localInfo.id ∨ ∃ u ∈ ups, u.1.id = peer.id) ∧
    ∀ ups' now' (t' : RoutingTable M) outs', (ups.map Prod.fst).Perm (ups'.map Prod.fst) →
      machine.run (new localInfo now') (updates ups') = some (t', outs') →
      (∀ id, id ∈ t.getAllPeers.map PeerInfo.id ↔ id ∈ t'.getAllPeers.map PeerInfo.id) ∧
      ∀ peer, t.isNew peer = t'.isNew peer := by
  have hknown := known_of_run hrun
  have hbucketed := (grown_of_run hrun).bucketed
  refine ⟨fun id => ?_, fun peer => ?_, fun ups' now' t' outs' hperm hrun' => ?_⟩
  · rw [hbucketed.mem_ids_getAllPeers, hknown]
    rfl
  · rw [isNew_eq_false_iff, ← mem_known, hknown]
    rfl
  · -- the two sequences update the same peers
    have hsame : t.known = t'.known := by
      rw [hknown, known_of_run hrun']
      ext id
      have hmem : ∀ {l : List (PeerInfo × Nat)},
          (∃ u ∈ l, u.1.id = id) ↔ ∃ p ∈ l.map Prod.fst, p.id = id := by
        intro l
        simp
      simp only [Set.mem_ofPred_eq, hmem, hperm.mem_iff]
    refine ⟨fun id => ?_, fun peer => ?_⟩
    · rw [hbucketed.mem_ids_getAllPeers, (grown_of_run hrun').bucketed.mem_ids_getAllPeers, hsame]
    · rw [Bool.eq_iff_iff, isNew_iff, isNew_iff, hsame]

/-- Thirty-one far peers, the last of them stored below the bucket the others fill. -/
theorem overflowing_ids_known : ∃ (t : RoutingTable ListedNodes) (outs : List PeerInfo),
    machine.run (new localPeer 0) (updates (farUpdates 31)) = some (t, outs) ∧
    (∀ id, id ∈ t.getAllPeers.map PeerInfo.id ↔
      id = localPeer.id ∨ ∃ u ∈ farUpdates 31, u.1.id = id) ∧
    (∀ peer, t.isNew peer = false ↔
      peer.id = localPeer.id ∨ ∃ u ∈ farUpdates 31, u.1.id = peer.id) ∧
    ∀ ups' now' (t' : RoutingTable ListedNodes) outs',
      ((farUpdates 31).map Prod.fst).Perm (ups'.map Prod.fst) →
      machine.run (new localPeer now') (updates ups') = some (t', outs') →
      (∀ id, id ∈ t.getAllPeers.map PeerInfo.id ↔ id ∈ t'.getAllPeers.map PeerInfo.id) ∧
      ∀ peer, t.isNew peer = t'.isNew peer := by
  obtain ⟨t, hrun, -⟩ := run_far_overflow
  exact ⟨t, [], hrun, known_ids hrun⟩

end RoutingTable

end Udp2p
