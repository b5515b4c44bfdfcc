import Mathlib.Data.List.Dedup
import Udp2p.Discovery.Capacity

/-!
# Is a peer held twice?

A known peer whose bucket has room is found again: the buckets above its own are full, so the
search ends where the peer is, and the update refreshes its position. A known peer whose bucket is
full is passed by, and stored once more in a deeper bucket; as updates remove nothing, it is held
twice from then on.

A new table holds the local peer. An update that brings other information for its id is about no new
peer, and still does not only refresh a position.

* `no_peer_held_twice_iff` — no peer is held twice, and known ones are refreshed, iff the local peer
  is updated as itself only, and no update finds its peer in a full bucket.
* `refresh_in_full_bucket_duplicates` — thirty peers fill a bucket, and one of them is refreshed.
-/

namespace Udp2p

namespace RoutingTable

open PrefixTree

variable {M : Type} [LinkedHashMap PeerId PeerInfo M]

/-- No id is held by two buckets. -/
def HeldOnce (t : RoutingTable M) : Prop :=
  ∀ id k k', t.HoldsAt k id → t.HoldsAt k' id → k = k'

/-- An id always comes with the same information. -/
def OneInfoPerId (peers : List PeerInfo) : Prop := ∀ p ∈ peers, ∀ q ∈ peers, p.id = q.id → p = q

/-- The id of the local peer, which a new table holds, comes with the local information. -/
def LocalAsItself (localInfo : PeerInfo) (ups : List (PeerInfo × Nat)) : Prop :=
  ∀ p ∈ ups.map Prod.fst, p.id = localInfo.id → p = localInfo

/-- The peer to be updated is in no full bucket. -/
def RefreshFits (t : RoutingTable M) (op : Op) : Prop :=
  ∀ peer now, op = .updatePeer peer now →
    ∀ k b, t.tree.lookup k = some b → b.contains peer = true → b.isFull = false

/-- The update of a known peer moves it to the back of its bucket, and does nothing else. -/
def RefreshesOnly (t : RoutingTable M) (op : Op) : Prop :=
  ∀ peer now, op = .updatePeer peer now → t.isNew peer = false →
    ∃ k b, t.tree.lookup k = some b ∧ (peer.id, peer) ∈ b.entries ∧
      machine.step t op = some ({ t with tree := t.tree.insert k (b.upsert peer now) }, [])

theorem holdsAt_iff_contains {t : RoutingTable M} {k : List Char} {peer : PeerInfo} :
    t.HoldsAt k peer.id ↔ ∃ b, t.tree.lookup k = some b ∧ b.contains peer = true := by
  simp [HoldsAt, KBucket.contains_iff]

theorem isNew_eq_false_iff {t : RoutingTable M} {peer : PeerInfo} :
    t.isNew peer = false ↔ ∃ k, t.HoldsAt k peer.id := by
  simp only [isNew, Bool.not_eq_false', List.any_eq_true, holdsAt_iff_contains]
  constructor
  · intro h
    obtain ⟨⟨k, b⟩, hmem, hcontains⟩ := h
    exact ⟨k, b, AList.lookup_eq_some_iff.mpr hmem, hcontains⟩
  · intro h
    obtain ⟨k, b, hb, hcontains⟩ := h
    exact ⟨⟨k, b⟩, AList.lookup_eq_some_iff.mp hb, hcontains⟩

/-! ## One update -/

section Step

variable {localInfo : PeerInfo} {ups : List (PeerInfo × Nat)} {t : RoutingTable M}
  {peer : PeerInfo} {now : Nat}

/-- A peer that is held is held as it is, on the path of its distance string. -/
theorem mem_entries_of_holdsAt (h : t.Grown localInfo ups)
    (hids : OneInfoPerId (localInfo :: (ups ++ [(peer, now)]).map Prod.fst)) {k : List Char}
    (hk : t.HoldsAt k peer.id) :
    ∃ b, t.tree.lookup k = some b ∧ (peer.id, peer) ∈ b.entries := by
  obtain ⟨b, hb, hid⟩ := hk
  obtain ⟨⟨id, v⟩, he, heq⟩ := List.mem_map.mp hid
  have hkey : id = v.id := h.bucketed.keyed hb he
  have hv : v ∈ localInfo :: (ups ++ [(peer, now)]).map Prod.fst := by
    rw [List.map_append, ← List.cons_append]
    exact List.mem_append_left _ (h.origin hb he)
  have hpeer : peer ∈ localInfo :: (ups ++ [(peer, now)]).map Prod.fst := by simp
  obtain rfl : v = peer := hids v hv peer hpeer (hkey.symm.trans heq)
  exact ⟨b, hb, heq ▸ he⟩

/-- A known peer in a bucket with room is updated there. -/
theorem destination_of_holdsAt (h : t.Grown localInfo ups)
    (hids : OneInfoPerId (localInfo :: (ups ++ [(peer, now)]).map Prod.fst))
    (hfits : t.RefreshFits (.updatePeer peer now)) {k : List Char} (hk : t.HoldsAt k peer.id) :
    t.destination peer = some k := by
  obtain ⟨b, hb, hmem⟩ := mem_entries_of_holdsAt h hids hk
  have hcontains : b.contains peer = true := KBucket.contains_iff.mpr ⟨peer, hmem⟩
  have hne : k ≠ [] := List.length_pos_iff.mp (h.bucketed.named hb).1
  exact place_of_room h.bucketed.closed h.inner hb (h.bucketed.prefixed hb hmem) hne
    (hfits peer now rfl k b hb hcontains)

/-- An update that finds its peer in no full bucket keeps every peer held once. -/
theorem HeldOnce.put (hheld : t.HeldOnce) (h : t.Grown localInfo ups)
    (hids : OneInfoPerId (localInfo :: (ups ++ [(peer, now)]).map Prod.fst))
    (hfits : t.RefreshFits (.updatePeer peer now)) {k : List Char}
    (hk : t.destination peer = some k) : (t.put peer now k).HeldOnce := by
  -- wherever the peer was held, it was at its destination
  have hold : ∀ j, t.HoldsAt j peer.id → j = k := fun j hj => by
    have hdest := destination_of_holdsAt h hids hfits hj
    rw [hk, Option.some.injEq] at hdest
    exact hdest.symm
  intro id j j' hj hj'
  rw [holdsAt_put] at hj hj'
  rcases hj with ⟨rfl, rfl⟩ | hj <;> rcases hj' with ⟨rfl, hid⟩ | hj'
  · rfl
  · exact (hold j' hj').symm
  · subst hid
    exact hold j hj
  · exact hheld id j j' hj hj'

theorem refreshesOnly_of_fits (h : t.Grown localInfo ups)
    (hids : OneInfoPerId (localInfo :: (ups ++ [(peer, now)]).map Prod.fst))
    (hfits : t.RefreshFits (.updatePeer peer now)) :
    t.RefreshesOnly (.updatePeer peer now) := by
  intro peer' now' heq hnew
  cases heq
  obtain ⟨k, hk⟩ := isNew_eq_false_iff.mp hnew
  obtain ⟨b, hb, hmem⟩ := mem_entries_of_holdsAt h hids hk
  refine ⟨k, b, hb, hmem, ?_⟩
  rw [step_of_destination (destination_of_holdsAt h hids hfits hk), RoutingTable.put, hb]
  rfl

/-- An update that finds its peer in a full bucket stores it a second time. -/
theorem not_heldOnce_put (hfits : ¬ t.RefreshFits (.updatePeer peer now)) {k : List Char}
    (hk : t.destination peer = some k) : ¬ (t.put peer now k).HeldOnce := by
  simp only [RefreshFits, not_forall] at hfits
  obtain ⟨peer', now', heq, k', b, hb, hcontains, hfull⟩ := hfits
  cases heq
  obtain ⟨-, -, hroom, -⟩ := place_eq_some hk
  intro hheld
  -- the destination has room, the bucket that holds the peer has none: they are two buckets
  have hsame : k' = k := hheld peer.id k' k
    (holdsAt_put.mpr (Or.inr (holdsAt_iff_contains.mpr ⟨b, hb, hcontains⟩)))
    (holdsAt_put.mpr (Or.inl ⟨rfl, rfl⟩))
  exact hfull (hroom b (hsame ▸ hb))

/-- Once a peer is held twice it stays so. -/
theorem not_heldOnce_mono (hheld : ¬ t.HeldOnce) (k : List Char) :
    ¬ (t.put peer now k).HeldOnce := by
  intro h
  apply hheld
  intro id j j' hj hj'
  apply h id j j'
  · exact holdsAt_put.mpr (Or.inr hj)
  · exact holdsAt_put.mpr (Or.inr hj')

end Step

/-! ## Runs -/

theorem OneInfoPerId.mono {peers peers' : List PeerInfo} (h : OneInfoPerId peers')
    (hsub : peers ⊆ peers') : OneInfoPerId peers :=
  fun p hp q hq => h p (hsub hp) q (hsub hq)

/-- With the local information among it. -/
theorem OneInfoPerId.cons {localInfo : PeerInfo} {ups : List (PeerInfo × Nat)}
    (h : OneInfoPerId (ups.map Prod.fst)) (hlocal : LocalAsItself localInfo ups) :
    OneInfoPerId (localInfo :: ups.map Prod.fst) := by
  intro p hp q hq hid
  rcases List.mem_cons.mp hp with hp | hp <;> rcases List.mem_cons.mp hq with hq | hq
  · exact hp.trans hq.symm
  · rw [hp, hlocal q hq (hp ▸ hid.symm)]
  · rw [hq, hlocal p hp (hq ▸ hid)]
  · exact h p hp q hq hid

theorem heldOnce_new (localInfo : PeerInfo) (now : Nat) :
    (new localInfo now : RoutingTable M).HeldOnce := by
  intro id k k' hk hk'
  obtain ⟨b, hb, -⟩ := hk
  obtain ⟨b', hb', -⟩ := hk'
  rw [lookup_new] at hb hb'
  split at hb <;> split at hb'
  · next hk hk' => exact hk.trans hk'.symm
  · cases hb'
  · cases hb
  · cases hb

/-- **Run.** Peers are held once as long as every update fits, and not from then on. -/
theorem run_heldOnce {localInfo : PeerInfo} {now : Nat} {ups : List (PeerInfo × Nat)}
    (hids : OneInfoPerId (localInfo :: ups.map Prod.fst)) {t : RoutingTable M}
    {outs : List PeerInfo}
    (hrun : machine.run (new localInfo now) (updates ups) = some (t, outs)) :
    (machine.Always RefreshFits (new localInfo now : RoutingTable M) (updates ups) →
      t.HeldOnce ∧
        machine.Always RefreshesOnly (new localInfo now : RoutingTable M) (updates ups)) ∧
    (¬ machine.Always RefreshFits (new localInfo now : RoutingTable M) (updates ups) →
      ¬ t.HeldOnce) := by
  induction ups using List.reverseRecOn generalizing t outs with
  | nil =>
    cases hrun
    exact ⟨fun _ => ⟨heldOnce_new localInfo now, trivial⟩, fun h => absurd trivial h⟩
  | append_singleton ups u ih =>
    obtain ⟨s, k, hs, hk, rfl⟩ := run_updates_concat hrun
    have hsub : localInfo :: ups.map Prod.fst ⊆ localInfo :: (ups ++ [u]).map Prod.fst := by
      rw [List.map_append, ← List.cons_append]
      exact List.subset_append_left _ _
    obtain ⟨hgood, hbad⟩ := ih (hids.mono hsub) hs
    have hgrown := grown_of_run hs
    rw [updates, List.map_append, List.map_singleton, ← updates]
    rw [machine.always_concat_of_run hs, machine.always_concat_of_run hs]
    constructor
    · intro h
      obtain ⟨halways, hlast⟩ := h
      obtain ⟨hheld, honly⟩ := hgood halways
      exact ⟨hheld.put hgrown hids hlast hk, honly, refreshesOnly_of_fits hgrown hids hlast⟩
    · intro hnot
      by_cases halways :
          machine.Always RefreshFits (new localInfo now : RoutingTable M) (updates ups)
      · apply not_heldOnce_put _ hk
        intro hlast
        exact hnot ⟨halways, hlast⟩
      · exact not_heldOnce_mono (hbad halways) k

/-- If updates of known peers only refresh positions, the local peer is updated as itself: no other
information is stored for its id. -/
theorem localAsItself_of_refreshes {localInfo : PeerInfo} {now : Nat}
    {ups : List (PeerInfo × Nat)} {t : RoutingTable M} {outs : List PeerInfo}
    (hrun : machine.run (new localInfo now) (updates ups) = some (t, outs))
    (honly : machine.Always RefreshesOnly (new localInfo now : RoutingTable M) (updates ups)) :
    LocalAsItself localInfo ups := by
  induction ups using List.reverseRecOn generalizing t outs with
  | nil =>
    intro p hp
    cases hp
  | append_singleton ups u ih =>
    obtain ⟨s, k, hs, hk, rfl⟩ := run_updates_concat hrun
    rw [updates, List.map_append, List.map_singleton, ← updates, machine.always_concat_of_run hs]
      at honly
    have hbefore := ih hs honly.1
    intro p hp hid
    rw [List.map_append, List.map_singleton, List.mem_append, List.mem_singleton] at hp
    rcases hp with hp | rfl
    · exact hbefore p hp hid
    · -- its id is known, so the information is stored already
      have hgrown := grown_of_run hs
      have hknown : s.isNew u.1 = false := by
        rw [isNew_eq_false_iff, hid]
        exact hgrown.known localInfo List.mem_cons_self
      obtain ⟨k', b, hb, hmem, -⟩ := honly.2 u.1 u.2 rfl hknown
      rcases List.mem_cons.mp (hgrown.origin hb hmem) with heq | hold
      · exact heq
      · exact hbefore u.1 hold hid

/-! ## Counting -/

/-- The ids held, bucket by bucket. -/
def heldIds (t : RoutingTable M) : List PeerId :=
  t.tree.entries.flatMap fun e => e.2.entries.map Prod.fst

/-- `total_peers` counts the ids held, each as often as it is held. -/
theorem length_heldIds (t : RoutingTable M) : t.heldIds.length = t.totalPeers := by
  rw [← length_getAllPeers, heldIds, getAllPeers, List.length_flatMap, List.length_flatten,
    List.map_map]
  apply congrArg List.sum
  apply List.map_congr_left
  intro e _
  rw [Function.comp_apply, KBucket.getNodes, List.length_map, List.length_map]
  rfl

/-- The ids held repeat nothing if every peer is held once. -/
theorem HeldOnce.nodup {t : RoutingTable M} (h : t.HeldOnce) : t.heldIds.Nodup := by
  rw [heldIds, List.nodup_flatMap]
  refine ⟨fun e _ => e.2.nodup_keys, ?_⟩
  -- buckets with different names share no id
  apply (List.nodupKeys_iff_pairwise.mp t.tree.nodupKeys).imp_of_mem
  intro e e' he he' hne id hid hid'
  exact hne (h id e.1 e'.1 ⟨e.2, AList.lookup_eq_some_iff.mpr he, hid⟩
    ⟨e'.2, AList.lookup_eq_some_iff.mpr he', hid'⟩)

/-- The ids held are those of the local peer and of the peers updated. -/
theorem Grown.mem_ids {localInfo : PeerInfo} {ups : List (PeerInfo × Nat)} {t : RoutingTable M}
    (h : t.Grown localInfo ups) {id : PeerId} :
    id ∈ t.heldIds ↔ id ∈ (localInfo :: ups.map Prod.fst).map PeerInfo.id := by
  rw [heldIds, List.mem_flatMap, List.mem_map]
  constructor
  · intro h
    obtain ⟨e, he, hid⟩ := h
    obtain ⟨e', he', rfl⟩ := List.mem_map.mp hid
    have hb := AList.lookup_eq_some_iff.mpr he
    exact ⟨e'.2, h.origin hb he', (h.bucketed.keyed hb he').symm⟩
  · intro h
    obtain ⟨p, hp, rfl⟩ := h
    obtain ⟨k, b, hb, hid⟩ := h.known p hp
    exact ⟨⟨k, b⟩, AList.lookup_eq_some_iff.mp hb, hid⟩

/-- **No peer is held twice**, exactly: if an id always comes with the same information, then every
id is in one bucket at most, there are as many peers as distinct ids, and updating a known peer only
refreshes its position, iff the local peer is updated as itself only, and every update finds its
peer in no full bucket. -/
theorem no_peer_held_twice_iff {localInfo : PeerInfo} {now : Nat} {ups : List (PeerInfo × Nat)}
    (hids : OneInfoPerId (ups.map Prod.fst)) {t : RoutingTable M} {outs : List PeerInfo}
    (hrun : machine.run (new localInfo now) (updates ups) = some (t, outs)) :
    (t.HeldOnce ∧
      t.totalPeers = ((localInfo :: ups.map Prod.fst).map PeerInfo.id).dedup.length ∧
      machine.Always RefreshesOnly (new localInfo now : RoutingTable M) (updates ups)) ↔
    LocalAsItself localInfo ups ∧
      machine.Always RefreshFits (new localInfo now : RoutingTable M) (updates ups) := by
  constructor
  · intro h
    obtain ⟨hheld, -, honly⟩ := h
    have hlocal := localAsItself_of_refreshes hrun honly
    refine ⟨hlocal, ?_⟩
    by_contra hnot
    exact (run_heldOnce (hids.cons hlocal) hrun).2 hnot hheld
  · intro h
    obtain ⟨hlocal, halways⟩ := h
    obtain ⟨hheld, honly⟩ := (run_heldOnce (hids.cons hlocal) hrun).1 halways
    refine ⟨hheld, ?_, honly⟩
    rw [← length_heldIds]
    apply List.Perm.length_eq
    rw [List.perm_ext_iff_of_nodup hheld.nodup (List.nodup_dedup _)]
    intro id
    rw [List.mem_dedup]
    exact (grown_of_run hrun).mem_ids

/-! ## Few updates -/

theorem SizesLe.refreshFits {t : RoutingTable M} {n : Nat} (h : t.SizesLe n)
    (hn : n < maxBucketLen) (op : Op) : t.RefreshFits op := by
  intro peer now _ k b hb _
  have hsize := h k b hb
  rw [KBucket.isFull, decide_eq_false_iff_not]
  omega

/-- Fewer updates than a bucket may hold peers return, and none meets a full bucket. -/
theorem run_few (localInfo : PeerInfo) (now : Nat) {ups : List (PeerInfo × Nat)}
    (hfew : ups.length < maxBucketLen) : ∃ t : RoutingTable M,
    machine.run (new localInfo now) (updates ups) = some (t, []) ∧ t.SizesLe (ups.length + 1) ∧
      machine.Always RefreshFits (new localInfo now : RoutingTable M) (updates ups) := by
  induction ups using List.reverseRecOn with
  | nil => exact ⟨_, rfl, sizesLe_new localInfo now, trivial⟩
  | append_singleton ups u ih =>
    rw [List.length_append, List.length_singleton] at hfew
    obtain ⟨t, hrun, hsizes, halways⟩ := ih (by omega)
    obtain ⟨k, hk⟩ := Option.isSome_iff_exists.mp
      (place_isSome_iff.mpr (hsizes.findsRoom hfew u.1))
    refine ⟨t.put u.1 u.2 k, ?_, ?_, ?_⟩
    · rw [updates, List.map_append]
      exact machine.run_concat_eq_some.mpr ⟨t, [], [], hrun, step_of_destination hk, rfl⟩
    · rw [List.length_append]
      exact hsizes.put u.1 u.2 k
    · rw [updates, List.map_append, List.map_singleton, ← updates,
        machine.always_concat_of_run hrun]
      exact ⟨halways, hsizes.refreshFits hfew _⟩

theorem farPeer_id_ne (i : Nat) : (farPeer i).id ≠ localPeer.id := by
  intro h
  have hlist := congrArg (fun p : PeerId => p.id.toList.length) h
  simp [farPeer, peerAt, localPeer, somePeer] at hlist

theorem oneInfoPerId_far (l : List Nat) :
    OneInfoPerId ((l.map fun i => (farPeer i, 0)).map Prod.fst) := by
  intro p hp q hq hid
  simp only [List.map_map, List.mem_map] at hp hq
  obtain ⟨i, -, rfl⟩ := hp
  obtain ⟨j, -, rfl⟩ := hq
  show farPeer i = farPeer j
  rw [peerAt_id_injective hid]

theorem localAsItself_far (l : List Nat) :
    LocalAsItself localPeer (l.map fun i => (farPeer i, 0)) := by
  intro p hp hid
  simp only [List.map_map, List.mem_map] at hp
  obtain ⟨i, -, rfl⟩ := hp
  exact absurd hid (farPeer_id_ne i)

/-- Two far peers, and the first of them again: it is refreshed. -/
theorem refreshed_peer_held_once : ∃ t : RoutingTable ListedNodes,
    machine.run (new localPeer 0) (updates (farUpdates 2 ++ [(farPeer 0, 0)])) = some (t, []) ∧
    t.HeldOnce ∧ t.totalPeers = 3 ∧
    machine.Always RefreshesOnly (new localPeer 0 : RoutingTable ListedNodes)
      (updates (farUpdates 2 ++ [(farPeer 0, 0)])) := by
  have hfew : (farUpdates 2 ++ [(farPeer 0, 0)]).length < maxBucketLen := by decide
  obtain ⟨t, hrun, -, halways⟩ := run_few (M := ListedNodes) localPeer 0 hfew
  obtain ⟨hheld, htotal, honly⟩ := (no_peer_held_twice_iff (oneInfoPerId_far [0, 1, 0]) hrun).mpr
    ⟨localAsItself_far [0, 1, 0], halways⟩
  refine ⟨t, hrun, hheld, ?_, honly⟩
  rw [htotal]
  decide

/-- The far bucket is full with thirty peers; the first of them, updated again, goes to the bucket
below as well. -/
theorem refresh_in_full_bucket_duplicates :
    ¬ ∀ (localInfo : PeerInfo) (now : Nat) (ups : List (PeerInfo × Nat))
      (t : RoutingTable ListedNodes) (outs : List PeerInfo),
      OneInfoPerId (localInfo :: ups.map Prod.fst) →
      machine.run (new localInfo now) (updates ups) = some (t, outs) → t.HeldOnce := by
  intro hall
  obtain ⟨t, hrun, hentries, hbelow⟩ := run_far 30 (by decide)
  have hfirst : ((farPeer 0).id, farPeer 0) ∈ (t.bucketAt 0 ['1']).entries := by
    rw [hentries]
    exact List.mem_map.mpr ⟨0, by simp, rfl⟩
  obtain ⟨b, hb, hmem⟩ := mem_bucketAt hfirst
  have hat : t.bucketAt 0 ['1'] = b := by rw [bucketAt, hb, Option.getD_some]
  have hfull : b.isFull = true := by
    rw [KBucket.isFull, KBucket.size_eq, ← hat, hentries, List.length_map, List.length_range]
    rfl
  have hnotfits : ¬ t.RefreshFits (.updatePeer (farPeer 0) 0) := by
    intro hfits
    rw [hfits _ _ rfl _ _ hb (KBucket.contains_iff.mpr ⟨_, hmem⟩)] at hfull
    cases hfull
  -- the bucket below is not there yet, so the update returns
  obtain ⟨k, hk⟩ := Option.isSome_iff_exists.mp
    (far_destination (grown_of_run hrun).self hbelow 0)
  have hids := (oneInfoPerId_far (List.range 30 ++ [0])).cons (localAsItself_far _)
  rw [List.map_append] at hids
  have hrun' : machine.run (new localPeer 0) (updates (farUpdates 30 ++ [(farPeer 0, 0)])) =
      some (t.put (farPeer 0) 0 k, []) := by
    rw [updates, List.map_append]
    exact machine.run_concat_eq_some.mpr ⟨t, [], [], hrun, step_of_destination hk, rfl⟩
  exact not_heldOnce_put hnotfits hk (hall _ _ _ _ _ hids hrun')

end RoutingTable

end Udp2p
