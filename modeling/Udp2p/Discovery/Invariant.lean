import Udp2p.Discovery.Routing

/-!
# The representation invariant of the routing table

`Bucketed` is kept by every operation. Updates alone also keep inner buckets full, and hold on to
every id they have stored; `Grown` collects what they keep, relative to the peers stored so far.

* `table_invariant` — the invariant in every reached state.
* `grown_of_run` — what runs of updates keep besides.
-/

namespace Udp2p

namespace RoutingTable

open PrefixTree

variable {M : Type} [LinkedHashMap PeerId PeerInfo M]

/-- The table is not empty and closed under prefixes; no bucket is too long; entries are filed under
their ids and in buckets named by prefixes of their distance strings. -/
structure Bucketed (t : RoutingTable M) : Prop where
  nonempty : t.tree.isEmpty = false
  small : ∀ {k b}, t.tree.lookup k = some b → b.size ≤ maxBucketLen
  keyed : ∀ {k b e}, t.tree.lookup k = some b → e ∈ b.entries → e.1 = e.2.id
  prefixed : ∀ {k b e}, t.tree.lookup k = some b → e ∈ b.entries →
    k <+: (t.distance e.2).getBinary
  named : ∀ {k b}, t.tree.lookup k = some b → 1 ≤ k.length ∧ k.length ≤ 256
  closed : PrefixClosed t.tree

/-- The first bucket: the local peer under the first zero of its distance to itself. -/
theorem lookup_new (localInfo : PeerInfo) (now : Nat) (k : List Char) :
    (new localInfo now : RoutingTable M).tree.lookup k =
      if k = ['0'] then some ((KBucket.new now).upsert localInfo now) else none := by
  have hpre : ((localInfo.key.xor localInfo.key).getPrefix 0).get (Key.getPrefix_zero_isSome _) =
      ['0'] := by
    rw [Option.get_of_eq_some _ (show _ = some ['0'] by
      rw [Key.getPrefix_eq, Key.getBinary_xor_self]
      rfl)]
  rw [new, hpre]
  exact AList.lookup_singleton _ _ _

theorem entries_first (peer : PeerInfo) (now : Nat) :
    ((KBucket.new now : KBucket M).upsert peer now).entries = [(peer.id, peer)] := by
  rw [KBucket.entries_upsert, KBucket.entries_new]
  rfl

theorem bucketed_new (localInfo : PeerInfo) (now : Nat) :
    (new localInfo now : RoutingTable M).Bucketed := by
  have honly : ∀ {k b}, (new localInfo now : RoutingTable M).tree.lookup k = some b →
      k = ['0'] ∧ b = (KBucket.new now).upsert localInfo now := by
    intro k b hb
    rw [lookup_new] at hb
    split at hb
    · next hk => exact ⟨hk, (Option.some.inj hb).symm⟩
    · cases hb
  constructor
  · rw [← Bool.not_eq_true, AList.isEmpty_iff, not_forall]
    exact ⟨['0'], by simp [lookup_new]⟩
  · intro k b hb
    rw [(honly hb).2, KBucket.size_eq, entries_first]
    exact Nat.le_add_left 1 29
  · intro k b e hb he
    rw [(honly hb).2, entries_first] at he
    rw [List.mem_singleton.mp he]
  · intro k b e hb he
    rw [(honly hb).2, entries_first] at he
    rw [List.mem_singleton.mp he, (honly hb).1, distance, new, Key.getBinary_xor_self]
    exact ⟨List.replicate 31 '0', rfl⟩
  · intro k b hb
    rw [(honly hb).1]
    decide
  · intro k hk hlen
    obtain ⟨b, hb⟩ := Option.isSome_iff_exists.mp hk
    rw [(honly hb).1] at hlen
    exact absurd hlen (by decide)

/-! ## Storing -/

/-- The bucket a peer is stored in, as it was: empty, if there was none. -/
def bucketAt (t : RoutingTable M) (now : Nat) (k : List Char) : KBucket M :=
  (t.tree.lookup k).getD (KBucket.new now)

theorem lookup_put (t : RoutingTable M) (peer : PeerInfo) (now : Nat) (k k' : List Char) :
    (t.put peer now k).tree.lookup k' =
      if k' = k then some ((t.bucketAt now k).upsert peer now) else t.tree.lookup k' :=
  AList.lookup_insert_ite _ _ _ _

/-- Entries of the bucket a peer will be stored in were in the table. -/
theorem mem_bucketAt {t : RoutingTable M} {now : Nat} {k : List Char} {e : PeerId × PeerInfo}
    (he : e ∈ (t.bucketAt now k).entries) : ∃ b, t.tree.lookup k = some b ∧ e ∈ b.entries := by
  unfold bucketAt at he
  cases hb : t.tree.lookup k with
  | none =>
    rw [hb, Option.getD_none, KBucket.entries_new] at he
    cases he
  | some b =>
    rw [hb] at he
    exact ⟨b, rfl, he⟩

theorem size_upsert_le (b : KBucket M) (peer : PeerInfo) (now : Nat) :
    (b.upsert peer now).size ≤ b.size + 1 := by
  rw [KBucket.size_eq, KBucket.size_eq, KBucket.entries_upsert, List.length_append]
  exact Nat.add_le_add_right (List.length_filter_le _ _) 1

/-- The destination has room for one more. -/
theorem size_bucketAt_lt {t : RoutingTable M} {peer : PeerInfo} {k : List Char}
    (hk : t.destination peer = some k) (now : Nat) : (t.bucketAt now k).size < maxBucketLen := by
  obtain ⟨-, -, hroom, -⟩ := place_eq_some hk
  unfold bucketAt
  cases hb : t.tree.lookup k with
  | none =>
    rw [Option.getD_none, KBucket.size_eq, KBucket.entries_new]
    decide
  | some b => simpa [KBucket.isFull] using hroom b hb

theorem Bucketed.put {t : RoutingTable M} (h : t.Bucketed) {peer : PeerInfo} {k : List Char}
    (hk : t.destination peer = some k) (now : Nat) : (t.put peer now k).Bucketed := by
  obtain ⟨hpre, hne, -, -⟩ := place_eq_some hk
  constructor
  · exact AList.isEmpty_insert _ _ _
  · intro k' b hb
    rw [lookup_put] at hb
    split at hb
    · cases hb
      exact Nat.le_trans (size_upsert_le _ _ _) (size_bucketAt_lt hk now)
    · exact h.small hb
  · intro k' b e hb he
    rw [lookup_put] at hb
    split at hb
    · cases hb
      rcases KBucket.mem_entries_upsert.mp he with rfl | ⟨-, he⟩
      · rfl
      · obtain ⟨b', hb', he'⟩ := mem_bucketAt he
        exact h.keyed hb' he'
    · exact h.keyed hb he
  · intro k' b e hb he
    rw [lookup_put] at hb
    split at hb
    · next heq =>
      cases hb
      subst heq
      rcases KBucket.mem_entries_upsert.mp he with rfl | ⟨-, he⟩
      · exact hpre
      · obtain ⟨b', hb', he'⟩ := mem_bucketAt he
        exact h.prefixed hb' he'
    · exact h.prefixed hb he
  · intro k' b hb
    rw [lookup_put] at hb
    split at hb
    · next heq =>
      subst heq
      have hbounds := (t.distance peer).length_getBinary_bounds
      exact ⟨List.length_pos_iff.mpr hne, hpre.length_le.trans hbounds.2⟩
    · exact h.named hb
  · exact h.closed.insert_place hk _

/-! ## Removing -/

/-- Taking entries out of one bucket keeps the invariant. -/
theorem Bucketed.shrink {t : RoutingTable M} (h : t.Bucketed) {k : List Char} {b b' : KBucket M}
    (hb : t.tree.lookup k = some b) (hsub : Shrinks b b') :
    Bucketed { t with tree := t.tree.insert k b' } := by
  constructor
  · exact AList.isEmpty_insert _ _ _
  · intro k' c hc
    rw [AList.lookup_insert_ite] at hc
    split at hc
    · cases hc
      rw [KBucket.size_eq]
      exact hsub.length_le.trans (b.size_eq ▸ h.small hb)
    · exact h.small hc
  · intro k' c e hc he
    rw [AList.lookup_insert_ite] at hc
    split at hc
    · cases hc
      exact h.keyed hb (hsub.subset he)
    · exact h.keyed hc he
  · intro k' c e hc he
    rw [AList.lookup_insert_ite] at hc
    split at hc
    · next heq =>
      cases hc
      subst heq
      exact h.prefixed hb (hsub.subset he)
    · exact h.prefixed hc he
  · intro k' c hc
    rw [AList.lookup_insert_ite] at hc
    split at hc
    · next heq =>
      subst heq
      exact h.named hb
    · exact h.named hc
  · -- no name comes or goes
    apply h.closed.congr
    intro k'
    rw [AList.lookup_insert_ite]
    split
    · next heq =>
      subst heq
      simp [hb]
    · rfl

theorem Bucketed.step {t t' : RoutingTable M} (h : t.Bucketed) {op : Op} {out : List PeerInfo}
    (hstep : machine.step t op = some (t', out)) : t'.Bucketed := by
  obtain ⟨peer, now, k, rfl, hk, rfl⟩ | ⟨-, rfl | ⟨k, b, b', hb, hsub, rfl⟩⟩ := step_cases hstep
  · exact h.put hk now
  · exact h
  · exact h.shrink hb hsub

theorem step_localInfo {t t' : RoutingTable M} {op : Op} {out : List PeerInfo}
    (hstep : machine.step t op = some (t', out)) : t'.localInfo = t.localInfo := by
  obtain ⟨peer, now, k, rfl, hk, rfl⟩ | ⟨-, rfl | ⟨k, b, b', hb, hsub, rfl⟩⟩ := step_cases hstep
  · rfl
  · rfl
  · rfl

/-! ## Runs -/

theorem innerFull_new (localInfo : PeerInfo) (now : Nat) :
    InnerFull KBucket.isFull (new localInfo now : RoutingTable M).tree := by
  intro k k' b hb hk' _ hproper _
  obtain ⟨b', hb'⟩ := Option.isSome_iff_exists.mp hk'
  rw [lookup_new] at hb hb'
  split at hb
  · next hk =>
    split at hb'
    · next heq => exact absurd (hk.trans heq.symm) hproper
    · cases hb'
  · cases hb

/-! ## Runs of updates -/

/-- The updates of some peers at some clock readings. -/
def updates (ups : List (PeerInfo × Nat)) : List Op := ups.map fun u => .updatePeer u.1 u.2

/-- The bucket named `k` has an entry under `id`. -/
def HoldsAt (t : RoutingTable M) (k : List Char) (id : PeerId) : Prop :=
  ∃ b, t.tree.lookup k = some b ∧ id ∈ b.entries.map Prod.fst

/-- What updates of the peers `ups` make of a new table: well-formed, with full inner buckets, it
holds the ids of these peers and the local one, and entries of no other peers. -/
structure Grown (localInfo : PeerInfo) (ups : List (PeerInfo × Nat)) (t : RoutingTable M) :
    Prop where
  self : t.localInfo = localInfo
  bucketed : t.Bucketed
  inner : InnerFull KBucket.isFull t.tree
  origin : ∀ {k b e}, t.tree.lookup k = some b → e ∈ b.entries →
    e.2 ∈ localInfo :: ups.map Prod.fst
  known : ∀ p ∈ localInfo :: ups.map Prod.fst, ∃ k, t.HoldsAt k p.id

theorem mem_map_fst_upsert {b : KBucket M} {peer : PeerInfo} {now : Nat} {id : PeerId} :
    id ∈ (b.upsert peer now).entries.map Prod.fst ↔ id = peer.id ∨ id ∈ b.entries.map Prod.fst := by
  simp only [List.mem_map, KBucket.mem_entries_upsert]
  constructor
  · intro h
    obtain ⟨e, rfl | ⟨-, he⟩, rfl⟩ := h
    · exact Or.inl rfl
    · exact Or.inr ⟨e, he, rfl⟩
  · intro h
    rcases h with rfl | ⟨e, he, rfl⟩
    · exact ⟨_, Or.inl rfl, rfl⟩
    · by_cases hid : e.1 = peer.id
      · exact ⟨_, Or.inl rfl, hid.symm⟩
      · exact ⟨e, Or.inr ⟨hid, he⟩, rfl⟩

/-- Storing a peer adds its id to one bucket and takes no id from any. -/
theorem holdsAt_put {t : RoutingTable M} {peer : PeerInfo} {now : Nat} {k k' : List Char}
    {id : PeerId} :
    (t.put peer now k).HoldsAt k' id ↔ (k' = k ∧ id = peer.id) ∨ t.HoldsAt k' id := by
  unfold HoldsAt
  rw [lookup_put]
  by_cases hk : k' = k
  · subst hk
    simp only [if_true, Option.some.injEq, exists_eq_left', mem_map_fst_upsert, true_and]
    unfold bucketAt
    cases t.tree.lookup k' with
    | none => simp [KBucket.entries_new]
    | some b => simp
  · simp [hk]

theorem grown_new (localInfo : PeerInfo) (now : Nat) :
    (new localInfo now : RoutingTable M).Grown localInfo [] where
  self := rfl
  bucketed := bucketed_new localInfo now
  inner := innerFull_new localInfo now
  origin hb he := by
    rw [lookup_new] at hb
    split at hb
    · cases hb
      rw [entries_first] at he
      rw [List.mem_singleton.mp he]
      exact List.mem_cons_self
    · cases hb
  known p hp := by
    obtain rfl : p = localInfo := by simpa using hp
    refine ⟨['0'], _, lookup_new p now ['0'], ?_⟩
    rw [entries_first]
    exact List.mem_singleton_self _

theorem Grown.put {localInfo : PeerInfo} {ups : List (PeerInfo × Nat)} {t : RoutingTable M}
    (h : t.Grown localInfo ups) {peer : PeerInfo} {k : List Char}
    (hk : t.destination peer = some k) (now : Nat) :
    (t.put peer now k).Grown localInfo (ups ++ [(peer, now)]) where
  self := h.self
  bucketed := h.bucketed.put hk now
  inner := h.inner.insert_place h.bucketed.closed hk _
  origin hb he := by
    rw [List.map_append, ← List.cons_append, List.mem_append]
    rw [lookup_put] at hb
    split at hb
    · cases hb
      rcases KBucket.mem_entries_upsert.mp he with rfl | ⟨-, he⟩
      · exact Or.inr (List.mem_singleton_self _)
      · obtain ⟨b, hb, he⟩ := mem_bucketAt he
        exact Or.inl (h.origin hb he)
    · exact Or.inl (h.origin hb he)
  known p hp := by
    rw [List.map_append, ← List.cons_append, List.mem_append] at hp
    simp only [holdsAt_put]
    rcases hp with hp | hp
    · exact (h.known p hp).imp fun _ => Or.inr
    · rw [List.mem_singleton.mp hp]
      exact ⟨k, Or.inl ⟨rfl, rfl⟩⟩

/-- One more update of a run. -/
theorem run_updates_concat {localInfo : PeerInfo} {now : Nat} {ups : List (PeerInfo × Nat)}
    {u : PeerInfo × Nat} {t : RoutingTable M} {outs : List PeerInfo}
    (hrun : machine.run (new localInfo now) (updates (ups ++ [u])) = some (t, outs)) :
    ∃ s k, machine.run (new localInfo now) (updates ups) = some (s, outs) ∧
      s.destination u.1 = some k ∧ t = s.put u.1 u.2 k := by
  rw [updates, List.map_append, List.map_singleton] at hrun
  obtain ⟨s, o₁, o₂, hs, hstep, rfl⟩ := machine.run_concat_eq_some.mp hrun
  obtain ⟨k, hk, rfl, rfl⟩ := step_updatePeer_eq_some hstep
  exact ⟨s, k, by rw [List.append_nil]; exact hs, hk, rfl⟩

theorem grown_of_run {localInfo : PeerInfo} {now : Nat} {ups : List (PeerInfo × Nat)}
    {t : RoutingTable M} {outs : List PeerInfo}
    (hrun : machine.run (new localInfo now) (updates ups) = some (t, outs)) :
    t.Grown localInfo ups := by
  induction ups using List.reverseRecOn generalizing t outs with
  | nil =>
    cases hrun
    exact grown_new localInfo now
  | append_singleton ups u ih =>
    obtain ⟨s, k, hs, hk, rfl⟩ := run_updates_concat hrun
    exact (ih hs).put hk u.2

/-! ## A full bucket -/

/-- Peers whose keys differ from the local one in the first bit. -/
def farPeer (i : Nat) : PeerInfo := peerAt 128 i

def farUpdates (n : Nat) : List (PeerInfo × Nat) := (List.range n).map fun i => (farPeer i, 0)

/-- The distance string of a far peer starts with a one and a zero. -/
theorem far_binary (i : Nat) :
    ∃ cs, (localPeer.key.xor (farPeer i).key).getBinary = '1' :: '0' :: cs := ⟨_, rfl⟩

/-- A far peer finds room as long as there is no bucket below the first one. -/
theorem far_destination {t : RoutingTable M} (hself : t.localInfo = localPeer)
    (hbelow : t.tree.lookup ['1', '0'] = none) (i : Nat) :
    (t.destination (farPeer i)).isSome := by
  obtain ⟨cs, hcs⟩ := far_binary i
  rw [destination, distance, hself, hcs, place_isSome_iff]
  refine ⟨['1', '0'], ⟨cs, rfl⟩, List.cons_ne_nil _ _, fun b hb => ?_⟩
  rw [hbelow] at hb
  cases hb

/-- Up to thirty far peers go to one bucket, and leave the one below it out. -/
theorem run_far (n : Nat) (hn : n ≤ 30) : ∃ t : RoutingTable ListedNodes,
    machine.run (new localPeer 0) (updates (farUpdates n)) = some (t, []) ∧
      (t.bucketAt 0 ['1']).entries =
        (List.range n).map (fun i => ((farPeer i).id, farPeer i)) ∧
      t.tree.lookup ['1', '0'] = none := by
  induction n with
  | zero => exact ⟨new localPeer 0, rfl, rfl, rfl⟩
  | succ n ih =>
    obtain ⟨t, hrun, hentries, hbelow⟩ := ih (by omega)
    have hroom : HasRoom KBucket.isFull t.tree ['1'] := by
      intro b hb
      have hat : t.bucketAt 0 ['1'] = b := by rw [bucketAt, hb, Option.getD_some]
      have hsize : b.size = n := by
        rw [KBucket.size_eq, ← hat, hentries, List.length_map, List.length_range]
      simp only [KBucket.isFull, maxBucketLen, hsize, decide_eq_false_iff_not]
      omega
    have hdest : t.destination (farPeer n) = some ['1'] := by
      obtain ⟨cs, hcs⟩ := far_binary n
      rw [destination, distance, (grown_of_run hrun).self, hcs]
      exact place_first hroom
    refine ⟨t.put (farPeer n) 0 ['1'], ?_, ?_, ?_⟩
    · rw [farUpdates, List.range_succ, List.map_append, updates, List.map_append]
      exact machine.run_concat_eq_some.mpr ⟨t, [], [], hrun, step_of_destination hdest, rfl⟩
    · have hothers : ∀ e ∈ (t.bucketAt 0 ['1']).entries, decide (e.1 ≠ (farPeer n).id) = true := by
        rw [hentries]
        intro e he
        obtain ⟨i, hi, rfl⟩ := List.mem_map.mp he
        have hne : i ≠ n := Nat.ne_of_lt (List.mem_range.mp hi)
        apply decide_eq_true
        intro (h : (farPeer i).id = (farPeer n).id)
        exact hne (peerAt_id_injective h)
      have hat : (t.put (farPeer n) 0 ['1']).bucketAt 0 ['1'] =
          (t.bucketAt 0 ['1']).upsert (farPeer n) 0 := by
        rw [bucketAt, lookup_put, if_pos rfl, Option.getD_some]
      rw [hat, KBucket.entries_upsert, List.filter_eq_self.mpr hothers, hentries, List.range_succ,
        List.map_append]
      rfl
    · rw [lookup_put, if_neg (by decide)]
      exact hbelow

/-- The thirty-first far peer goes to the bucket below the full one. -/
theorem run_far_overflow : ∃ t : RoutingTable ListedNodes,
    machine.run (new localPeer 0) (updates (farUpdates 31)) = some (t, []) ∧
      (t.tree.lookup ['1']).isSome ∧ (t.tree.lookup ['1', '0']).isSome := by
  obtain ⟨t, hrun, hentries, hbelow⟩ := run_far 30 (by decide)
  have hfirst : ((farPeer 0).id, farPeer 0) ∈ (t.bucketAt 0 ['1']).entries := by
    rw [hentries]
    exact List.mem_map.mpr ⟨0, by simp, rfl⟩
  obtain ⟨b, hb, -⟩ := mem_bucketAt hfirst
  have hat : t.bucketAt 0 ['1'] = b := by rw [bucketAt, hb, Option.getD_some]
  have hfull : ¬ HasRoom KBucket.isFull t.tree ['1'] := by
    intro hroom
    have hnot := hroom b hb
    rw [KBucket.isFull, KBucket.size_eq, ← hat, hentries, List.length_map, List.length_range]
      at hnot
    cases hnot
  have hroom : HasRoom KBucket.isFull t.tree ['1', '0'] := by
    intro c hc
    rw [hbelow] at hc
    cases hc
  have hdest : t.destination (farPeer 30) = some ['1', '0'] := by
    obtain ⟨cs, hcs⟩ := far_binary 30
    rw [destination, distance, (grown_of_run hrun).self, hcs]
    exact place_second hfull hroom
  refine ⟨t.put (farPeer 30) 0 ['1', '0'], ?_, ?_, ?_⟩
  · rw [farUpdates, List.range_succ, List.map_append, updates, List.map_append]
    exact machine.run_concat_eq_some.mpr ⟨t, [], [], hrun, step_of_destination hdest, rfl⟩
  · rw [lookup_put, if_neg (by decide), hb]
    rfl
  · rw [lookup_put, if_pos rfl]
    rfl

/-! ## The invariant -/

/-- **The representation invariant** holds in every reached state; in runs of updates alone, every
bucket above another one holds exactly as many peers as a bucket may. -/
theorem table_invariant {localInfo : PeerInfo} {now : Nat} {ops : List Op} {t : RoutingTable M}
    {outs : List PeerInfo} (hrun : machine.run (new localInfo now) ops = some (t, outs)) :
    t.localInfo = localInfo ∧ t.Bucketed ∧
    ((∀ op ∈ ops, ∃ peer now, op = .updatePeer peer now) →
      ∀ k k' b, t.tree.lookup k = some b → (t.tree.lookup k').isSome → k <+: k' → k ≠ k' →
        b.size = maxBucketLen) := by
  have hboth : t.localInfo = localInfo ∧ t.Bucketed :=
    machine.run_induct (P := fun t => t.localInfo = localInfo ∧ t.Bucketed)
      (fun _ _ _ _ ht hstep => ⟨(step_localInfo hstep).trans ht.1, ht.2.step hstep⟩)
      ⟨rfl, bucketed_new localInfo now⟩ hrun
  refine ⟨hboth.1, hboth.2, fun hupdates k k' b hb hk' hpre hproper => ?_⟩
  -- that inner buckets are full is not kept by removals, hence the second run
  have hinner : t.Bucketed ∧ InnerFull KBucket.isFull t.tree := by
    refine machine.run_history (P := fun t _ _ => t.Bucketed ∧ InnerFull KBucket.isFull t.tree)
      ?_ ⟨bucketed_new localInfo now, innerFull_new localInfo now⟩ hupdates hrun
    intro t _ _ op t' out ht hop hstep
    refine ⟨ht.1.step hstep, ?_⟩
    obtain ⟨peer, now', k, -, hk, rfl⟩ | ⟨hnot, -⟩ := step_cases hstep
    · exact ht.2.insert_place ht.1.closed hk _
    · obtain ⟨peer, now', rfl⟩ := hop
      exact absurd rfl (hnot peer now')
  have hne : k ≠ [] := List.length_pos_iff.mp (hboth.2.named hb).1
  have hfull := hinner.2 k k' b hb hk' hpre hproper hne
  apply Nat.le_antisymm (hboth.2.small hb)
  simpa [KBucket.isFull] using hfull

/-- A peer is stored and removed; then the least recently used peer is to be removed from a bucket
that is not there, so that none is. -/
def oneOfEach : List Op :=
  [.updatePeer (somePeer "p" 128) 1, .removePeer (somePeer "p" 128),
   .removeLru (List.Vector.replicate 32 0)]

theorem run_oneOfEach : ∃ (t : RoutingTable ListedNodes) (outs : List PeerInfo),
    machine.run (new localPeer 0) oneOfEach = some (t, outs) := by
  have hupdate : machine.step (new localPeer 0 : RoutingTable ListedNodes)
      (.updatePeer (somePeer "p" 128) 1) =
        some ((new localPeer 0).put (somePeer "p" 128) 1 ['1'], []) :=
    step_of_destination (by decide)
  have hremovals : (machine.run
      ((new localPeer 0 : RoutingTable ListedNodes).put (somePeer "p" 128) 1 ['1'])
      oneOfEach.tail).isSome := by decide
  obtain ⟨⟨t, outs⟩, hrest⟩ := Option.isSome_iff_exists.mp hremovals
  exact ⟨t, outs, machine.run_cons_eq_some.mpr ⟨_, [], outs, hupdate, hrest, rfl⟩⟩

/-- A run with removals, and one of updates alone in which a bucket overflows. -/
theorem oneOfEach_invariant :
    (∃ (t : RoutingTable ListedNodes) (outs : List PeerInfo),
      machine.run (new localPeer 0) oneOfEach = some (t, outs) ∧
      t.localInfo = localPeer ∧ t.Bucketed ∧
      ((∀ op ∈ oneOfEach, ∃ peer now, op = .updatePeer peer now) →
        ∀ k k' b, t.tree.lookup k = some b → (t.tree.lookup k').isSome → k <+: k' → k ≠ k' →
          b.size = maxBucketLen)) ∧
    ∃ t : RoutingTable ListedNodes,
      machine.run (new localPeer 0) (updates (farUpdates 31)) = some (t, []) ∧
      t.localInfo = localPeer ∧ t.Bucketed ∧ (t.tree.lookup ['1', '0']).isSome ∧
      ∃ b, t.tree.lookup ['1'] = some b ∧ b.size = maxBucketLen := by
  constructor
  · obtain ⟨t, outs, hrun⟩ := run_oneOfEach
    exact ⟨t, outs, hrun, table_invariant hrun⟩
  · obtain ⟨t, hrun, habove, hbelow⟩ := run_far_overflow
    obtain ⟨hself, hbucketed, hfull⟩ := table_invariant hrun
    obtain ⟨b, hb⟩ := Option.isSome_iff_exists.mp habove
    refine ⟨t, hrun, hself, hbucketed, hbelow, b, hb, ?_⟩
    refine hfull (fun op hop => ?_) ['1'] ['1', '0'] b hb hbelow ⟨['0'], rfl⟩ (by decide)
    obtain ⟨u, -, rfl⟩ := List.mem_map.mp hop
    exact ⟨u.1, u.2, rfl⟩

end RoutingTable

end Udp2p
