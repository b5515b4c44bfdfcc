import Udp2p.Discovery.Removal

/-!
# Is staleness judged correctly?

A bucket is stale when it was stored to long ago. Its timestamp is the reading with which a peer was
stored there last; but the time passed since is an unsigned difference of two readings of a clock
that may have been set back.

* `lastStored` — the reading of the last store to a bucket, from the operations alone.
* `stamp_of_run` — the timestamp of every bucket is that reading.
* `stale_judged_iff` — the stale buckets are told apart from the others iff no reading lies before
  the last store.
-/

namespace Udp2p

namespace RoutingTable

variable {M : Type} [LinkedHashMap PeerId PeerInfo M]

/-- The reading with which an operation stores a peer in the bucket named `name`. -/
def storedBy (t : RoutingTable M) (name : List Char) : Op → Option Nat
  | .updatePeer peer now => if t.destination peer = some name then some now else none
  | _ => none

/-- The reading of the last store to the bucket named `name`, `last` being that of the store before
the operations, or of the creation of the table. -/
def lastStored (name : List Char) : RoutingTable M → Nat → List Op → Nat
  | _, last, [] => last
  | t, last, op :: ops =>
    match machine.step t op with
    | none => last
    | some (t', _) => lastStored name t' ((t.storedBy name op).getD last) ops

/-! ## Timestamps -/

/-- What is removed leaves the timestamps as they are. -/
theorem stamp_of_removal {t t' : RoutingTable M} {op : Op} {out : List PeerInfo}
    (hop : ∀ peer now, op ≠ .updatePeer peer now) (hstep : machine.step t op = some (t', out))
    (name : List Char) : (t'.tree.lookup name).map KBucket.lastUpdated =
      (t.tree.lookup name).map KBucket.lastUpdated := by
  cases op with
  | updatePeer peer now => exact absurd rfl (hop peer now)
  | removePeer peer =>
    obtain ⟨t'', hremove, heq⟩ := Option.map_eq_some_iff.mp hstep
    cases heq
    obtain ⟨pre, -, hlookup⟩ := lookup_of_removePeer hremove
    rw [hlookup, Option.map_map]
    congr 1
    funext b
    rw [Function.comp_apply]
    split <;> rfl
  | removeLru peerKey =>
    obtain ⟨⟨removed, t''⟩, hremove, heq⟩ := Option.map_eq_some_iff.mp hstep
    cases heq
    obtain ⟨pre, -, hremove⟩ := Option.bind_eq_some_iff.mp hremove
    split at hremove
    · next b hb =>
      obtain ⟨⟨removed', b'⟩, hbucket, heq⟩ := Option.bind_eq_some_iff.mp hremove
      cases heq
      rw [AList.lookup_insert_ite]
      split
      · next heq =>
        rw [heq, hb, Option.map_some, Option.map_some, (KBucket.removeLru_eq_some hbucket).2]
      · rfl
    · cases hremove
      rfl

/-- **Step.** The timestamp of a bucket is the reading of the last store. -/
theorem stamp_step {t t' : RoutingTable M} {op : Op} {out : List PeerInfo}
    (hstep : machine.step t op = some (t', out)) {name : List Char} {last : Nat}
    (h : ∀ b, t.tree.lookup name = some b → b.lastUpdated = last) :
    ∀ b, t'.tree.lookup name = some b → b.lastUpdated = (t.storedBy name op).getD last := by
  intro b hb
  obtain ⟨peer, now, k, rfl, hk, rfl⟩ | ⟨hop, -⟩ := step_cases hstep
  · rw [lookup_put] at hb
    rw [storedBy, hk]
    by_cases heq : name = k
    · rw [if_pos heq] at hb
      cases hb
      rw [if_pos (by rw [heq])]
      rfl
    · rw [if_neg heq] at hb
      rw [if_neg fun hsame => heq (Option.some.inj hsame).symm]
      exact h b hb
  · have hnone : t.storedBy name op = none := by
      cases op with
      | updatePeer peer now => exact absurd rfl (hop peer now)
      | _ => rfl
    have hstamp := stamp_of_removal hop hstep name
    rw [hb, Option.map_some, eq_comm, Option.map_eq_some_iff] at hstamp
    obtain ⟨b', hb', heq⟩ := hstamp
    rw [hnone, Option.getD_none, ← heq]
    exact h b' hb'

/-- **Run.** -/
theorem stamp_run {t t' : RoutingTable M} {ops : List Op} {outs : List PeerInfo}
    (hrun : machine.run t ops = some (t', outs)) {name : List Char} {last : Nat}
    (h : ∀ b, t.tree.lookup name = some b → b.lastUpdated = last) :
    ∀ b, t'.tree.lookup name = some b → b.lastUpdated = lastStored name t last ops := by
  induction ops generalizing t last outs with
  | nil =>
    cases hrun
    exact h
  | cons op ops ih =>
    obtain ⟨s, out, outs', hstep, hrest, -⟩ := machine.run_cons_eq_some.mp hrun
    rw [lastStored, hstep]
    exact ih hrest (stamp_step hstep h)

theorem stamp_of_run {localInfo : PeerInfo} {now : Nat} {ops : List Op} {t : RoutingTable M}
    {outs : List PeerInfo} (hrun : machine.run (new localInfo now) ops = some (t, outs))
    {name : List Char} {b : KBucket M} (hb : t.tree.lookup name = some b) :
    b.lastUpdated = lastStored name (new localInfo now : RoutingTable M) now ops := by
  refine stamp_run hrun (fun b hb => ?_) b hb
  rw [lookup_new] at hb
  split at hb
  · cases hb
    rfl
  · cases hb

/-! ## Stale buckets -/

/-- The names of the buckets that were stored to more than the interval before they are looked at,
in the order of the table. -/
def staleBuckets (since : List Char → Nat) (clock : Nat → Nat)
    (entries : List ((Σ _ : List Char, KBucket M) × Nat)) : List (List Char) :=
  (entries.filter fun e => since e.1.1 + refreshInterval < clock e.2).map fun e => e.1.1

omit [LinkedHashMap PeerId PeerInfo M] in
/-- The loop returns iff no reading lies before the timestamp of its bucket. -/
theorem staleFrom_eq (since : List Char → Nat) {entries : List (Σ _ : List Char, KBucket M)}
    (hsince : ∀ e ∈ entries, e.2.lastUpdated = since e.1) (clock : Nat → Nat) (i : Nat) :
    staleFrom clock i entries =
      if ∀ e ∈ entries.zipIdx i, since e.1.1 ≤ clock e.2 then
        some (staleBuckets since clock (entries.zipIdx i))
      else none := by
  induction entries generalizing i with
  | nil => rfl
  | cons e entries ih =>
    obtain ⟨name, b⟩ := e
    have hb : b.lastUpdated = since name := hsince ⟨name, b⟩ List.mem_cons_self
    rw [staleFrom, ih fun e he => hsince e (List.mem_cons_of_mem _ he), List.zipIdx_cons,
      KBucket.isStale, hb]
    simp only [List.forall_mem_cons]
    by_cases hfirst : since name ≤ clock i
    · by_cases hrest : ∀ e ∈ entries.zipIdx (i + 1), since e.1.1 ≤ clock e.2
      · have hlt : refreshInterval < clock i - since name ↔
            since name + refreshInterval < clock i := by omega
        rw [if_pos hfirst, if_pos hrest, if_pos ⟨hfirst, hrest⟩]
        by_cases hstale : since name + refreshInterval < clock i
        · simp [staleBuckets, hlt, hstale]
        · simp [staleBuckets, hlt, hstale]
      · have hnot : ¬ (since name ≤ clock i ∧ ∀ e ∈ entries.zipIdx (i + 1),
            since e.1.1 ≤ clock e.2) := fun h => hrest h.2
        rw [if_pos hfirst, if_neg hrest, if_neg hnot]
        rfl
    · have hnot : ¬ (since name ≤ clock i ∧ ∀ e ∈ entries.zipIdx (i + 1),
          since e.1.1 ≤ clock e.2) := fun h => hfirst h.1
      rw [if_neg hfirst, if_neg hnot]
      rfl

/-- **Staleness is judged correctly**, exactly: in every state reached, `get_stale_indices` returns
the names of the buckets that were stored to last, or created, more than the interval before the
reading they are judged by, iff no such reading lies before the last store. -/
theorem stale_judged_iff {localInfo : PeerInfo} {now : Nat} {ops : List Op} {t : RoutingTable M}
    {outs : List PeerInfo} (hrun : machine.run (new localInfo now) ops = some (t, outs))
    (clock : Nat → Nat) :
    t.getStaleIndices clock = some (staleBuckets
      (fun name => lastStored name (new localInfo now : RoutingTable M) now ops) clock
      t.tree.entries.zipIdx) ↔
    ∀ e ∈ t.tree.entries.zipIdx,
      lastStored e.1.1 (new localInfo now : RoutingTable M) now ops ≤ clock e.2 := by
  have hsince : ∀ e ∈ t.tree.entries, e.2.lastUpdated =
      lastStored e.1 (new localInfo now : RoutingTable M) now ops :=
    fun e he => stamp_of_run hrun (AList.lookup_eq_some_iff.mpr he)
  rw [getStaleIndices, staleFrom_eq (fun name => lastStored name _ now ops) hsince]
  split
  · next h => exact iff_of_true rfl h
  · next h => exact iff_of_false nofun h

theorem twoPeers_stale_judged_iff :
    twoPeers.getStaleIndices (fun i => refreshInterval + i) = some (staleBuckets
      (fun name => lastStored name (new localPeer 0 : RoutingTable ListedNodes) 0
        (updates [(peerAt 128 0, 0)])) (fun i => refreshInterval + i)
      twoPeers.tree.entries.zipIdx) ↔
    ∀ e ∈ twoPeers.tree.entries.zipIdx,
      lastStored e.1.1 (new localPeer 0 : RoutingTable ListedNodes) 0
        (updates [(peerAt 128 0, 0)]) ≤ refreshInterval + e.2 :=
  stale_judged_iff run_twoPeers fun i => refreshInterval + i

/-- A table made at ten, and judged at nine. -/
theorem clock_set_back :
    ¬ ∀ (localInfo : PeerInfo) (now : Nat) (ops : List Op) (t : RoutingTable ListedNodes)
      (outs : List PeerInfo), machine.run (new localInfo now) ops = some (t, outs) →
      ∀ clock, t.getStaleIndices clock = some (staleBuckets
        (fun name => lastStored name (new localInfo now : RoutingTable ListedNodes) now ops) clock
        t.tree.entries.zipIdx) := by
  intro hall
  have h := hall localPeer 10 [] _ _ rfl fun _ => 9
  have hnone : (new localPeer 10 : RoutingTable ListedNodes).getStaleIndices (fun _ => 9) = none :=
    rfl
  rw [hnone] at h
  cases h

end RoutingTable

end Udp2p
