import Udp2p.Discovery.Staleness
import Udp2p.Lib.Recency

/-!
# Is the least recently used peer the one that goes?

A bucket is a linked hash map: a peer that is stored goes to the back, and `remove_lru` takes the
front. So the peers of a bucket stand in the order of their last stores, whatever has been taken out
in between.

* `storesTo` — the peers stored in a bucket, from the operations alone.
* `peersAt_run` — a bucket holds some of their last stores, in order.
* `least_recently_stored_removed` — the peer removed is the one not stored for longest.
-/

namespace Udp2p

namespace RoutingTable

variable {M : Type} [LinkedHashMap PeerId PeerInfo M]

/-- The peer an operation stores in the bucket named `name`. -/
def storedTo (t : RoutingTable M) (name : List Char) : Op → Option PeerInfo
  | .updatePeer peer _ => if t.destination peer = some name then some peer else none
  | _ => none

/-- The peers stored in the bucket named `name`, one after another, after those in `stores`. -/
def storesTo (name : List Char) : RoutingTable M → List PeerInfo → List Op → List PeerInfo
  | _, stores, [] => stores
  | t, stores, op :: ops =>
    match machine.step t op with
    | none => stores
    | some (t', _) => storesTo name t' (stores ++ (t.storedTo name op).toList) ops

/-- The store of `new`: the local peer, in the first bucket. -/
def firstStores (localInfo : PeerInfo) (name : List Char) : List PeerInfo :=
  if name = ['0'] then [localInfo] else []

/-- The peers of the bucket named `name`, in order. -/
def peersAt (t : RoutingTable M) (name : List Char) : List PeerInfo :=
  ((t.tree.lookup name).map KBucket.getNodes).getD []

/-! ## Order in a bucket -/

theorem peersAt_new (localInfo : PeerInfo) (now : Nat) (name : List Char) :
    (new localInfo now : RoutingTable M).peersAt name = firstStores localInfo name := by
  rw [peersAt, lookup_new, firstStores]
  split
  · rw [Option.map_some, Option.getD_some, KBucket.getNodes]
    show ((KBucket.new now : KBucket M).upsert localInfo now).entries.map Prod.snd = [localInfo]
    rw [entries_first, List.map_singleton]
  · rfl

/-- A stored peer goes to the back, and takes the place of the one stored under its id. -/
theorem peersAt_put {t : RoutingTable M} (h : t.Bucketed) (peer : PeerInfo) (now : Nat)
    (name : List Char) : (t.put peer now name).peersAt name =
      (t.peersAt name).filter (fun p => p.id ≠ peer.id) ++ [peer] := by
  have hkeyed : ∀ e ∈ (t.bucketAt now name).entries, e.1 = e.2.id := by
    intro e he
    obtain ⟨b, hb, he⟩ := mem_bucketAt he
    exact h.keyed hb he
  have hbucket : t.peersAt name = (t.bucketAt now name).entries.map Prod.snd := by
    unfold peersAt bucketAt
    cases t.tree.lookup name with
    | none =>
      rw [Option.getD_none, KBucket.entries_new]
      rfl
    | some b => rfl
  have hfilter : (t.bucketAt now name).entries.filter (fun e => e.1 ≠ peer.id) =
      (t.bucketAt now name).entries.filter (fun e => e.2.id ≠ peer.id) := by
    apply List.filter_congr
    intro e he
    rw [hkeyed e he]
  rw [hbucket, peersAt, lookup_put, if_pos rfl]
  show ((t.bucketAt now name).upsert peer now).entries.map Prod.snd = _
  rw [KBucket.entries_upsert, hfilter, List.map_append, List.filter_map]
  rfl

theorem peersAt_put_ne (t : RoutingTable M) (peer : PeerInfo) (now : Nat) {k name : List Char}
    (hne : name ≠ k) : (t.put peer now k).peersAt name = t.peersAt name := by
  rw [peersAt, lookup_put, if_neg hne, peersAt]

theorem Pruned.peersAt {t t' : RoutingTable M} (h : Pruned t t') (name : List Char) :
    (t'.peersAt name).Sublist (t.peersAt name) := by
  rcases h with rfl | ⟨k, b, b', hb, hsub, rfl⟩
  · exact List.Sublist.refl _
  · unfold RoutingTable.peersAt
    rw [AList.lookup_insert_ite]
    split
    · next heq =>
      rw [heq, hb]
      exact hsub.map Prod.snd
    · exact List.Sublist.refl _

/-- **Step.** -/
theorem peersAt_step {t t' : RoutingTable M} {op : Op} {out : List PeerInfo} (h : t.Bucketed)
    (hstep : machine.step t op = some (t', out)) {name : List Char} {stores : List PeerInfo}
    (hstores : (t.peersAt name).Sublist (lastUses PeerInfo.id stores)) : (t'.peersAt name).Sublist
      (lastUses PeerInfo.id (stores ++ (t.storedTo name op).toList)) := by
  obtain ⟨peer, now, k, rfl, hk, rfl⟩ | ⟨hop, hpruned⟩ := step_cases hstep
  · rw [storedTo, hk]
    by_cases heq : name = k
    · subst heq
      rw [if_pos rfl, Option.toList_some, lastUses_concat, peersAt_put h]
      exact (hstores.filter _).append (List.Sublist.refl _)
    · rw [if_neg fun hsame => heq (Option.some.inj hsame).symm, Option.toList_none,
        List.append_nil, peersAt_put_ne t peer now heq]
      exact hstores
  · have hnone : t.storedTo name op = none := by
      cases op with
      | updatePeer peer now => exact absurd rfl (hop peer now)
      | removePeer peer => rfl
      | removeLru peerKey => rfl
    rw [hnone, Option.toList_none, List.append_nil]
    exact (hpruned.peersAt name).trans hstores

/-- **Run.** -/
theorem peersAt_run {t t' : RoutingTable M} {ops : List Op} {outs : List PeerInfo} (h : t.Bucketed)
    (hrun : machine.run t ops = some (t', outs)) {name : List Char} {stores : List PeerInfo}
    (hstores : (t.peersAt name).Sublist (lastUses PeerInfo.id stores)) :
    (t'.peersAt name).Sublist (lastUses PeerInfo.id (storesTo name t stores ops)) := by
  induction ops generalizing t stores outs with
  | nil =>
    cases hrun
    exact hstores
  | cons op ops ih =>
    obtain ⟨s, out, outs', hstep, hrest, -⟩ := machine.run_cons_eq_some.mp hrun
    rw [storesTo, hstep]
    exact ih (h.step hstep) hrest (peersAt_step h hstep hstores)

/-! ## The front of a bucket -/

/-- `remove_lru` takes the front of the bucket at the removal prefix. -/
theorem peersAt_removeLru {t t' : RoutingTable M} {peerKey : InnerKey} {peer : PeerInfo}
    (h : t.removeLru peerKey = some (some peer, t')) : ∃ name,
    t.removalPrefix ⟨peerKey⟩ = some name ∧ t.peersAt name = peer :: t'.peersAt name ∧
    ∀ other ≠ name, t'.tree.lookup other = t.tree.lookup other := by
  obtain ⟨name, hname, h⟩ := Option.bind_eq_some_iff.mp h
  refine ⟨name, hname, ?_⟩
  cases hb : t.tree.lookup name with
  | none =>
    rw [hb] at h
    cases h
  | some b =>
    rw [hb] at h
    obtain ⟨⟨removed, b'⟩, hbucket, heq⟩ := Option.bind_eq_some_iff.mp h
    cases heq
    refine ⟨?_, fun other hne => ?_⟩
    · unfold KBucket.removeLru at hbucket
      split at hbucket
      · cases hbucket
      · obtain ⟨⟨e, nodes⟩, hpop, heq⟩ := Option.bind_eq_some_iff.mp hbucket
        cases heq
        have hiter := LinkedHashMap.iter_popFront _ _ _ hpop
        rw [peersAt, peersAt, hb, AList.lookup_insert_ite, if_pos rfl]
        show (LinkedHashMap.iter b.nodes).map Prod.snd =
          e.2 :: (LinkedHashMap.iter nodes).map Prod.snd
        rw [hiter, List.map_cons]
    · rw [AList.lookup_insert_ite, if_neg hne]

/-- **The least recently used peer goes**: after updates and removals in any order, the peer that
`remove_lru` returns is as it was stored last in the bucket at the removal prefix; it has not been
stored there since, and all the peers it leaves in that bucket have. Nothing else changes. -/
theorem least_recently_stored_removed {localInfo : PeerInfo} {now : Nat} {ops : List Op}
    {t : RoutingTable M} {outs : List PeerInfo}
    (hrun : machine.run (new localInfo now) ops = some (t, outs)) {peerKey : InnerKey}
    {peer : PeerInfo} {t' : RoutingTable M}
    (hremove : t.removeLru peerKey = some (some peer, t')) :
    ∃ name, t.removalPrefix ⟨peerKey⟩ = some name ∧ t.peersAt name = peer :: t'.peersAt name ∧
      (∀ other ≠ name, t'.tree.lookup other = t.tree.lookup other) ∧
      ∃ before since, storesTo name (new localInfo now : RoutingTable M)
          (firstStores localInfo name) ops = before ++ peer :: since ∧
        (∀ p ∈ since, p.id ≠ peer.id) ∧ t'.peersAt name ⊆ since := by
  obtain ⟨name, hname, hfront, hother⟩ := peersAt_removeLru hremove
  refine ⟨name, hname, hfront, hother, ?_⟩
  have hfirst : ((new localInfo now : RoutingTable M).peersAt name).Sublist
      (lastUses PeerInfo.id (firstStores localInfo name)) := by
    rw [peersAt_new, firstStores]
    split
    · exact List.Sublist.refl _
    · exact List.nil_sublist _
  have hordered := peersAt_run (bucketed_new localInfo now) hrun hfirst
  rw [hfront] at hordered
  exact unused_since hordered

/-- Two peers are stored in one bucket, and the first of them again. -/
def usedAgain : List Op := updates [(peerAt 128 0, 0), (peerAt 128 1, 1), (peerAt 128 0, 2)]

theorem usedAgain_removes : ∃ t t' : RoutingTable ListedNodes,
    machine.run (new localPeer 0) usedAgain = some (t, []) ∧
    t.removeLru (peerAt 128 0).key.bytes = some (some (peerAt 128 1), t') ∧
    ∃ name, t.removalPrefix ⟨(peerAt 128 0).key.bytes⟩ = some name ∧
      t.peersAt name = peerAt 128 1 :: t'.peersAt name ∧
      (∀ other ≠ name, t'.tree.lookup other = t.tree.lookup other) ∧
      ∃ before since, storesTo name (new localPeer 0 : RoutingTable ListedNodes)
          (firstStores localPeer name) usedAgain = before ++ peerAt 128 1 :: since ∧
        (∀ p ∈ since, p.id ≠ (peerAt 128 1).id) ∧ t'.peersAt name ⊆ since := by
  have hsecond : machine.step twoPeers (.updatePeer (peerAt 128 1) 1) =
      some (twoPeers.put (peerAt 128 1) 1 ['1'], []) := step_of_destination (by decide)
  have hagain : machine.step (twoPeers.put (peerAt 128 1) 1 ['1'])
      (.updatePeer (peerAt 128 0) 2) =
        some ((twoPeers.put (peerAt 128 1) 1 ['1']).put (peerAt 128 0) 2 ['1'], []) :=
    step_of_destination (by decide)
  have hrun : machine.run (new localPeer 0) usedAgain =
      some ((twoPeers.put (peerAt 128 1) 1 ['1']).put (peerAt 128 0) 2 ['1'], []) := by
    have hrest : machine.run twoPeers (updates [(peerAt 128 1, 1), (peerAt 128 0, 2)]) =
        some ((twoPeers.put (peerAt 128 1) 1 ['1']).put (peerAt 128 0) 2 ['1'], []) :=
      machine.run_cons_eq_some.mpr
        ⟨_, [], [], hsecond, machine.run_singleton_eq_some.mpr hagain, rfl⟩
    show machine.run (new localPeer 0) (updates [(peerAt 128 0, 0)] ++
      updates [(peerAt 128 1, 1), (peerAt 128 0, 2)]) = _
    exact machine.run_append_eq_some.mpr ⟨twoPeers, [], [], run_twoPeers, hrest, rfl⟩
  obtain ⟨t', hremove⟩ : ∃ t',
      ((twoPeers.put (peerAt 128 1) 1 ['1']).put (peerAt 128 0) 2 ['1']).removeLru
        (peerAt 128 0).key.bytes = some (some (peerAt 128 1), t') := by
    have hfront : (((twoPeers.put (peerAt 128 1) 1 ['1']).put (peerAt 128 0) 2 ['1']).removeLru
        (peerAt 128 0).key.bytes).map Prod.fst = some (some (peerAt 128 1)) := by decide
    obtain ⟨⟨removed, t'⟩, hremove, rfl⟩ := Option.map_eq_some_iff.mp hfront
    exact ⟨t', hremove⟩
  exact ⟨_, t', hrun, hremove, least_recently_stored_removed hrun hremove⟩

end RoutingTable

end Udp2p
