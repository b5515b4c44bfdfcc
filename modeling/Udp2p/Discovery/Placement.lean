import Udp2p.Discovery.Capacity
import Udp2p.Discovery.Duplicates

/-!
# Where does `update_peer` put a peer?

The recursion ends at the bucket named by the shortest prefix that names no full bucket. There the
peer becomes the most recent entry; nothing else in the table changes.

* `Placed` — what placing a peer in a bucket does to a table.
* `placed_put` — storing a peer places it.
* `updatePeer_places` — in every table, a peer that finds room is placed at the shortest prefix.
-/

namespace Udp2p

namespace RoutingTable

open PrefixTree

variable {M : Type} [LinkedHashMap PeerId PeerInfo M]

/-- The peer is the most recent entry of the bucket named `name`, after those of the other peers
that were there; the other buckets are as they were. -/
structure Placed (t t' : RoutingTable M) (peer : PeerInfo) (now : Nat) (name : List Char) :
    Prop where
  stored : ∃ b, t'.tree.lookup name = some b ∧ b.lastUpdated = now ∧
    b.entries = ((t.tree.lookup name).map fun old =>
      old.entries.filter fun e => e.1 ≠ peer.id).getD [] ++ [(peer.id, peer)]
  others : ∀ name', name' ≠ name → t'.tree.lookup name' = t.tree.lookup name'
  localInfo : t'.localInfo = t.localInfo

theorem placed_put (t : RoutingTable M) (peer : PeerInfo) (now : Nat) (name : List Char) :
    Placed t (t.put peer now name) peer now name where
  stored := by
    refine ⟨(t.bucketAt now name).upsert peer now, ?_, rfl, ?_⟩
    · rw [lookup_put, if_pos rfl]
    · rw [KBucket.entries_upsert, bucketAt]
      cases t.tree.lookup name with
      | none => rw [Option.getD_none, KBucket.entries_new]; rfl
      | some b => rfl
  others name' hne := by rw [lookup_put, if_neg hne]
  localInfo := rfl

/-- **A peer that finds room** is placed in the bucket named by the shortest prefix of its distance
string that names no full bucket. -/
theorem updatePeer_places {t : RoutingTable M} {peer : PeerInfo} (hroom : t.FindsRoom peer)
    (now : Nat) : ∃ t' name, t.updatePeer peer 0 now = some (t', true) ∧
      name <+: (t.distance peer).getBinary ∧ name ≠ [] ∧
      (∀ b, t.tree.lookup name = some b → b.isFull = false) ∧
      (∀ pre, pre <+: (t.distance peer).getBinary → pre ≠ [] → pre.length < name.length →
        ∃ b, t.tree.lookup pre = some b ∧ b.isFull = true) ∧
      Placed t t' peer now name := by
  obtain ⟨name, hname⟩ := Option.isSome_iff_exists.mp (place_isSome_iff.mpr hroom)
  obtain ⟨hpre, hne, hfits, hshorter⟩ := place_eq_some hname
  refine ⟨t.put peer now name, name, ?_, hpre, hne, hfits, hshorter, placed_put t peer now name⟩
  rw [updatePeer_eq, destination, hname, Option.map_some]

/-- The thirty-first far peer: the bucket of the first prefix is full, the next one is absent. -/
theorem far_peer_placed_below : ∃ t : RoutingTable ListedNodes,
    machine.run (new localPeer 0) (updates (farUpdates 30)) = some (t, []) ∧
    ∃ t' name, t.updatePeer (farPeer 30) 0 7 = some (t', true) ∧
      name <+: (t.distance (farPeer 30)).getBinary ∧ name ≠ [] ∧
      (∀ b, t.tree.lookup name = some b → b.isFull = false) ∧
      (∀ pre, pre <+: (t.distance (farPeer 30)).getBinary → pre ≠ [] → pre.length < name.length →
        ∃ b, t.tree.lookup pre = some b ∧ b.isFull = true) ∧
      Placed t t' (farPeer 30) 7 name := by
  obtain ⟨t, hrun, -, hbelow⟩ := run_far 30 (by decide)
  have hroom : t.FindsRoom (farPeer 30) :=
    place_isSome_iff.mp (far_destination (grown_of_run hrun).self hbelow 30)
  exact ⟨t, hrun, updatePeer_places hroom 7⟩

end RoutingTable

end Udp2p
