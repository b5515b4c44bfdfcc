import Udp2p.Discovery.Invariant

/-!
# Does the routing table run out of room?

`update_peer` walks down the distance string of its peer, and panics at its end if every prefix
names a full bucket; `get_closest_peers` asks for a prefix as long as each bucket's name, and
panics if the distance string is shorter than one of them.

* `table_survives_iff` — exactly when the two calls return, in every reached state.
* `ids_on_path_le` — as many ids share one distance string as its prefixes have buckets.
* `one_key_exhausts_its_path` — a thousand peers with the local key are too many.
-/

namespace Udp2p

namespace RoutingTable

open PrefixTree

variable {M : Type} [LinkedHashMap PeerId PeerInfo M]

/-- Some prefix of the peer's distance string names no full bucket. -/
def FindsRoom (t : RoutingTable M) (peer : PeerInfo) : Prop :=
  ∃ k, k <+: (t.distance peer).getBinary ∧ k ≠ [] ∧
    ∀ b, t.tree.lookup k = some b → b.isFull = false

/-- An update finds room for its peer. -/
def UpdateFits (t : RoutingTable M) (op : Op) : Prop :=
  ∀ peer now, op = .updatePeer peer now → t.FindsRoom peer

theorem updatePeer_isSome_iff {t : RoutingTable M} {peer : PeerInfo} {now : Nat} :
    (t.updatePeer peer 0 now).isSome ↔ t.FindsRoom peer := by
  rw [updatePeer_eq, Option.isSome_map]
  exact place_isSome_iff

theorem retains_isSome_iff {distance : Key} {k : List Char} :
    (retains distance k).isSome ↔ k ≠ [] ∧ k.length ≤ distance.getBinary.length := by
  unfold retains
  by_cases hk : k.length = 0
  · simp [List.length_eq_zero_iff.mp hk]
  · have hne : k ≠ [] := fun h => hk (List.length_eq_zero_iff.mpr h)
    rw [if_neg hk, Key.getPrefix_eq]
    by_cases hlt : k.length - 1 < distance.getBinary.length
    · rw [if_pos hlt]
      exact ⟨fun _ => ⟨hne, by omega⟩, fun _ => rfl⟩
    · rw [if_neg hlt]
      constructor
      · intro h
        cases h
      · intro h
        have hlen := h.2
        omega

/-- No bucket holds more than `n` peers. -/
def SizesLe (t : RoutingTable M) (n : Nat) : Prop :=
  ∀ k b, t.tree.lookup k = some b → b.size ≤ n

theorem sizesLe_new (localInfo : PeerInfo) (now : Nat) :
    (new localInfo now : RoutingTable M).SizesLe 1 := by
  intro k b hb
  rw [lookup_new] at hb
  split at hb
  · cases hb
    rw [KBucket.size_eq, entries_first]
    exact le_rfl
  · cases hb

theorem SizesLe.put {t : RoutingTable M} {n : Nat} (h : t.SizesLe n) (peer : PeerInfo) (now : Nat)
    (k : List Char) : (t.put peer now k).SizesLe (n + 1) := by
  intro k' b hb
  rw [lookup_put] at hb
  split at hb
  · cases hb
    apply (size_upsert_le _ peer now).trans
    apply Nat.succ_le_succ
    unfold bucketAt
    cases hb : t.tree.lookup k with
    | none => simp [KBucket.size_eq, KBucket.entries_new]
    | some b => exact h k b hb
  · exact (h k' b hb).trans n.le_succ

/-- While no bucket is full, every peer finds room in the bucket of its first digit. -/
theorem SizesLe.findsRoom {t : RoutingTable M} {n : Nat} (h : t.SizesLe n) (hn : n < maxBucketLen)
    (peer : PeerInfo) : t.FindsRoom peer := by
  refine ⟨(t.distance peer).getBinary.take 1, List.take_prefix _ _, ?_, fun b hb => ?_⟩
  · have hlen := (t.distance peer).length_getBinary_bounds
    apply List.ne_nil_of_length_pos
    rw [List.length_take]
    omega
  · have hsize := h _ b hb
    rw [KBucket.isFull, decide_eq_false_iff_not]
    omega

/-- `get_closest_peers` returns if everything is wanted, and else iff no bucket has a name longer
than the distance string. -/
theorem getClosestPeers_isSome_iff {t : RoutingTable M} (h : t.Bucketed) {peer : PeerInfo}
    {count : Nat} : (t.getClosestPeers peer count).isSome ↔ t.totalPeers ≤ count ∨
      ∀ k b, t.tree.lookup k = some b → k.length ≤ (t.distance peer).getBinary.length := by
  unfold getClosestPeers
  by_cases hall : t.totalPeers ≤ count
  · simp [hall]
  · have hmapM : (t.tree.entries.mapM fun e => retains (t.distance peer) e.1).isSome ↔
        ∀ k b, t.tree.lookup k = some b → k.length ≤ (t.distance peer).getBinary.length := by
      rw [isSome_mapM_iff]
      simp only [retains_isSome_iff]
      constructor
      · intro hlen k b hb
        exact (hlen ⟨k, b⟩ (AList.lookup_eq_some_iff.mp hb)).2
      · intro hlen e he
        have hb := AList.lookup_eq_some_iff.mpr he
        exact ⟨List.length_pos_iff.mp (h.named hb).1, hlen e.1 e.2 hb⟩
    rw [if_neg hall, ← hmapM]
    simp only [hall, false_or]
    cases t.tree.entries.mapM fun e => retains (t.distance peer) e.1 with
    | none => simp
    | some flags =>
      simp only [Option.bind_eq_bind, Option.bind_some, Option.isSome_some, iff_true]
      split <;> rfl

/-- **The routing table survives**, exactly: a run of updates returns iff each finds room; and in
every state reached, a further update returns iff it finds room, and `get_closest_peers` iff
everything is wanted or no bucket has a name longer than the distance string. -/
theorem table_survives_iff (localInfo : PeerInfo) (now : Nat) (ups : List (PeerInfo × Nat)) :
    ((machine.run (new localInfo now : RoutingTable M) (updates ups)).isSome ↔
      machine.Always UpdateFits (new localInfo now : RoutingTable M) (updates ups)) ∧
    ∀ (t : RoutingTable M) outs, machine.run (new localInfo now) (updates ups) = some (t, outs) →
      ∀ peer now' count,
        ((t.updatePeer peer 0 now').isSome ↔ t.FindsRoom peer) ∧
        ((t.getClosestPeers peer count).isSome ↔ t.totalPeers ≤ count ∨
          ∀ k b, t.tree.lookup k = some b → k.length ≤ (t.distance peer).getBinary.length) := by
  refine ⟨?_, fun t outs hrun peer now' count => ⟨updatePeer_isSome_iff,
    getClosestPeers_isSome_iff (grown_of_run hrun).bucketed⟩⟩
  refine machine.run_isSome_iff_always (P := fun _ => True)
    (A := fun op => ∃ peer now, op = .updatePeer peer now)
    (fun _ _ _ _ _ _ => trivial) ?_ trivial ?_
  · rintro t op - ⟨peer, now', rfl⟩
    rw [step_updatePeer_isSome]
    constructor
    · intro hdest peer' now'' heq
      cases heq
      exact place_isSome_iff.mp hdest
    · intro hfits
      apply place_isSome_iff.mpr
      exact hfits peer now' rfl
  · intro op hop
    obtain ⟨u, -, rfl⟩ := List.mem_map.mp hop
    exact ⟨u.1, u.2, rfl⟩

/-! ## Counting peers on one path -/

/-- The ids in the bucket named `k`. -/
def idsAt (t : RoutingTable M) (k : List Char) : List PeerId :=
  ((t.tree.lookup k).map fun b => b.entries.map Prod.fst).getD []

theorem mem_idsAt {t : RoutingTable M} {k : List Char} {id : PeerId} :
    id ∈ t.idsAt k ↔ t.HoldsAt k id := by
  unfold idsAt HoldsAt
  cases t.tree.lookup k <;> simp

theorem length_idsAt_le {t : RoutingTable M} (h : t.Bucketed) (k : List Char) :
    (t.idsAt k).length ≤ maxBucketLen := by
  unfold idsAt
  cases hb : t.tree.lookup k with
  | none => exact Nat.zero_le _
  | some b =>
    rw [Option.map_some, Option.getD_some, List.length_map, ← KBucket.size_eq]
    exact h.small hb

/-- Ids whose peers all have one distance string lie in the buckets its prefixes name. -/
theorem ids_on_path_le {t : RoutingTable M} (h : t.Bucketed) {path : List Char}
    {ids : List PeerId} (hnodup : ids.Nodup)
    (hheld : ∀ id ∈ ids, ∃ k, t.HoldsAt k id ∧ k <+: path) :
    ids.length ≤ path.length * maxBucketLen := by
  have hsub : ids ⊆ (prefixesFrom 0 path).flatMap t.idsAt := by
    intro id hid
    obtain ⟨k, hk, hpre⟩ := hheld id hid
    have hholds := hk
    obtain ⟨b, hb, -⟩ := hholds
    have hne : k ≠ [] := List.length_pos_iff.mp (h.named hb).1
    exact List.mem_flatMap.mpr ⟨k, mem_prefixesFrom_zero.mpr ⟨hpre, hne⟩, mem_idsAt.mpr hk⟩
  have hlen : (prefixesFrom 0 path).length = path.length := by simp [prefixesFrom]
  calc ids.length ≤ ((prefixesFrom 0 path).flatMap t.idsAt).length :=
        hnodup.length_le_of_subset hsub
    _ ≤ (prefixesFrom 0 path).length * maxBucketLen :=
        length_flatMap_le fun k _ => length_idsAt_le h k
    _ = path.length * maxBucketLen := by rw [hlen]

/-- Peers with the key of the local one. -/
def nearUpdates (n : Nat) : List (PeerInfo × Nat) := (List.range n).map fun i => (peerAt 0 i, 0)

theorem key_of_mem_near {n : Nat} {p : PeerInfo}
    (hp : p ∈ localPeer :: (nearUpdates n).map Prod.fst) : p.key = localPeer.key := by
  rcases List.mem_cons.mp hp with rfl | hp
  · rfl
  · simp only [nearUpdates, List.map_map, List.mem_map] at hp
    obtain ⟨i, -, rfl⟩ := hp
    rfl

/-- A thousand peers with the local key: the thirty-two buckets on their path hold 960. -/
theorem one_key_exhausts_its_path :
    ¬ ∀ (localInfo : PeerInfo) (now : Nat) (ups : List (PeerInfo × Nat))
      (t : RoutingTable ListedNodes) (outs : List PeerInfo),
      machine.run (new localInfo now) (updates ups) = some (t, outs) →
      ∀ peer now', (t.updatePeer peer 0 now').isSome := by
  intro hall
  -- if updates always returned, those of the thousand peers would
  have hreturns : ∀ n, ∃ t : RoutingTable ListedNodes,
      machine.run (new localPeer 0) (updates (nearUpdates n)) = some (t, []) := by
    intro n
    induction n with
    | zero => exact ⟨new localPeer 0, rfl⟩
    | succ n ih =>
      obtain ⟨t, hrun⟩ := ih
      have hsome := hall localPeer 0 _ t [] hrun (peerAt 0 n) 0
      rw [updatePeer_eq, Option.isSome_map] at hsome
      obtain ⟨k, hk⟩ := Option.isSome_iff_exists.mp hsome
      refine ⟨t.put (peerAt 0 n) 0 k, ?_⟩
      rw [nearUpdates, List.range_succ, List.map_append, updates, List.map_append]
      exact machine.run_concat_eq_some.mpr ⟨t, [], [], hrun, step_of_destination hk, rfl⟩
  obtain ⟨t, hrun⟩ := hreturns 1000
  have hgrown := grown_of_run hrun
  have hnodup : ((List.range 1000).map fun i => (peerAt 0 i).id).Nodup :=
    List.nodup_range.map fun i j hij => peerAt_id_injective hij
  -- and all their ids would lie on the path of the thirty-two zeros
  have hheld : ∀ id ∈ (List.range 1000).map fun i => (peerAt 0 i).id,
      ∃ k, t.HoldsAt k id ∧ k <+: List.replicate 32 '0' := by
    intro id hid
    obtain ⟨i, hi, rfl⟩ := List.mem_map.mp hid
    have hmem : peerAt 0 i ∈ localPeer :: (nearUpdates 1000).map Prod.fst := by
      refine List.mem_cons_of_mem _ (List.mem_map.mpr ⟨(peerAt 0 i, 0), ?_, rfl⟩)
      exact List.mem_map.mpr ⟨i, hi, rfl⟩
    obtain ⟨k, b, hb, hkey⟩ := hgrown.known _ hmem
    obtain ⟨e, he, -⟩ := List.mem_map.mp hkey
    have hpre := hgrown.bucketed.prefixed hb he
    have hkeys := key_of_mem_near (hgrown.origin hb he)
    rw [distance, hgrown.self, hkeys, Key.getBinary_xor_self] at hpre
    exact ⟨k, ⟨b, hb, hkey⟩, hpre⟩
  have hle := ids_on_path_le hgrown.bucketed hnodup hheld
  simp [maxBucketLen] at hle

end RoutingTable

end Udp2p
