import Mathlib.Algebra.GroupWithZero.Nat
import Udp2p.Lib.Machine
import Udp2p.Lib.Nearest
import Udp2p.Lib.PrefixTree
import Udp2p.Node.Peer
import Udp2p.Protocol.Packetize

/-!
# The routing table

Buckets of peers named by prefixes of the binary string of the distance to the local key. The
linked hash map of a bucket is a parameter `M`; `none` is a panic: a slice past the end of a binary
string, or a subtraction below zero. Where the code reads the clock, the reading is an argument.

* `updatePeer_eq` — the recursion of `update_peer` stores the peer in the `place` of its distance
  string: the bucket of the shortest prefix that names no full bucket.
* `step_cases` — what any operation does to the table.
-/

namespace Udp2p

def maxBucketLen : Nat := 30

/-- `REFRESH_INTEVAL`, a quarter of an hour in nanoseconds. -/
def refreshInterval : Nat := 900000000000

/-! ## Buckets -/

structure KBucket (M : Type) where
  nodes : M
  lastUpdated : Nat

namespace KBucket

variable {M : Type} [LinkedHashMap PeerId PeerInfo M]

def new (now : Nat) : KBucket M where
  nodes := LinkedHashMap.empty
  lastUpdated := now

def upsert (b : KBucket M) (peer : PeerInfo) (now : Nat) : KBucket M where
  nodes := LinkedHashMap.insert b.nodes peer.id peer
  lastUpdated := now

def contains (b : KBucket M) (peer : PeerInfo) : Bool := LinkedHashMap.containsKey b.nodes peer.id

def getNodes (b : KBucket M) : List PeerInfo := (LinkedHashMap.iter b.nodes).map Prod.snd

def size (b : KBucket M) : Nat := LinkedHashMap.len b.nodes

/-- The value removed and the bucket left; `pop_front().unwrap()` panics on an empty map. -/
def removeLru (b : KBucket M) : Option (Option PeerInfo × KBucket M) :=
  if b.size = 0 then some (none, b)
  else do
    let (e, nodes) ← LinkedHashMap.popFront b.nodes
    return (some e.2, { b with nodes })

def removePeer (b : KBucket M) (peer : PeerInfo) : Option PeerInfo × KBucket M :=
  (LinkedHashMap.get b.nodes peer.id, { b with nodes := LinkedHashMap.remove b.nodes peer.id })

def isFull (b : KBucket M) : Bool := maxBucketLen ≤ b.size

/-- The difference underflows if the clock has been set back. -/
def isStale (b : KBucket M) (now : Nat) : Option Bool :=
  if b.lastUpdated ≤ now then some (refreshInterval < now - b.lastUpdated) else none

/-- The keys and values stored. -/
def entries (b : KBucket M) : List (PeerId × PeerInfo) := LinkedHashMap.iter b.nodes

theorem size_eq (b : KBucket M) : b.size = b.entries.length := LinkedHashMap.len_eq b.nodes

theorem nodup_keys (b : KBucket M) : (b.entries.map Prod.fst).Nodup :=
  LinkedHashMap.nodup_keys b.nodes

theorem entries_new (now : Nat) : (new now : KBucket M).entries = [] := LinkedHashMap.iter_empty

theorem contains_iff {b : KBucket M} {peer : PeerInfo} :
    b.contains peer = true ↔ ∃ v, (peer.id, v) ∈ b.entries :=
  LinkedHashMap.containsKey_iff

theorem mem_entries_upsert {b : KBucket M} {peer : PeerInfo} {now : Nat} {e : PeerId × PeerInfo} :
    e ∈ (b.upsert peer now).entries ↔ e = (peer.id, peer) ∨ e.1 ≠ peer.id ∧ e ∈ b.entries := by
  rcases e with ⟨id, v⟩
  rw [Prod.mk.injEq]
  exact LinkedHashMap.mem_iter_insert

/-- A peer goes to the back; the others keep their order. -/
theorem entries_upsert (b : KBucket M) (peer : PeerInfo) (now : Nat) :
    (b.upsert peer now).entries =
      b.entries.filter (fun e => e.1 ≠ peer.id) ++ [(peer.id, peer)] :=
  LinkedHashMap.iter_insert b.nodes peer.id peer

theorem entries_removePeer (b : KBucket M) (peer : PeerInfo) :
    (b.removePeer peer).2.entries = b.entries.filter (fun e => e.1 ≠ peer.id) :=
  LinkedHashMap.iter_remove b.nodes peer.id

/-- Removing the least recently used peer of a bucket that has one leaves the others. -/
theorem removeLru_eq_some {b b' : KBucket M} {peer? : Option PeerInfo}
    (h : b.removeLru = some (peer?, b')) :
    b'.entries <:+ b.entries ∧ b'.lastUpdated = b.lastUpdated := by
  unfold removeLru at h
  split at h
  · cases h
    exact ⟨List.suffix_rfl, rfl⟩
  · obtain ⟨⟨e, nodes⟩, hpop, heq⟩ := Option.bind_eq_some_iff.mp h
    cases heq
    have hiter := LinkedHashMap.iter_popFront _ _ _ hpop
    exact ⟨⟨[e], hiter.symm⟩, rfl⟩

end KBucket

/-! ## The table -/

structure RoutingTable (M : Type) where
  tree : HashMap (List Char) (KBucket M)
  localInfo : PeerInfo

namespace RoutingTable

variable {M : Type} [LinkedHashMap PeerId PeerInfo M]

def new (localInfo : PeerInfo) (now : Nat) : RoutingTable M where
  tree := AList.singleton
    (((localInfo.key.xor localInfo.key).getPrefix 0).get (Key.getPrefix_zero_isSome _))
    ((KBucket.new now).upsert localInfo now)
  localInfo := localInfo

/-- `self.local_info.get_key().xor(peer_info.get_key())`. -/
def distance (t : RoutingTable M) (peer : PeerInfo) : Key := t.localInfo.key.xor peer.key

/-- Store the peer in the bucket named by the prefix, or in a deeper one. -/
def updatePeer (t : RoutingTable M) (peer : PeerInfo) (traverse : Nat) (now : Nat) :
    Option (RoutingTable M × Bool) :=
  match _h : (t.distance peer).getPrefix traverse with
  | none => none
  | some pre =>
    match t.tree.lookup pre with
    | some bucket =>
      -- full buckets are passed by before it is asked whether they hold the peer
      if ¬ bucket.isFull then
        some ({ t with tree := t.tree.insert pre (bucket.upsert peer now) }, true)
      else updatePeer t peer (traverse + 1) now
    | none =>
      let newBucket := (KBucket.new now).upsert peer now
      some ({ t with tree := t.tree.insert pre newBucket }, true)
termination_by (t.distance peer).getBinary.length - traverse
decreasing_by
  rw [Key.getPrefix_eq] at _h
  split at _h
  · omega
  · cases _h

def totalPeers (t : RoutingTable M) : Nat := t.tree.entries.foldl (fun acc e => acc + e.2.size) 0

def getAllPeers (t : RoutingTable M) : List PeerInfo :=
  (t.tree.entries.map fun e => e.2.getNodes).flatten

/-- Is the bucket name `k` a prefix of the distance string? `k.len() - 1` underflows for an empty
name, and the prefix may not exist. -/
def retains (distance : Key) (k : List Char) : Option Bool :=
  if k.length = 0 then none
  else do
    let pre ← distance.getPrefix (k.length - 1)
    return pre = k

/-- The loop that extends `ret` bucket by bucket until it has `count` peers. -/
def fill (count : Nat) (ret : List PeerInfo) :
    List (List Char × List PeerInfo) → List PeerInfo
  | [] => ret
  | (_, nodes) :: closest => if ret.length < count then fill count (ret ++ nodes) closest else ret

/-- The first vector of peers, extended. -/
def collect (count : Nat) : List (List Char × List PeerInfo) → List PeerInfo
  | [] => []
  | (_, nodes) :: closest => fill count nodes closest

/-- Sort by the distance to the peer and truncate. -/
def closestOf (peer : PeerInfo) (peers : List PeerInfo) (count : Nat) : List PeerInfo :=
  sortTake (fun p : PeerInfo => p.key.xor peer.key) peers count

def getClosestPeers (t : RoutingTable M) (peer : PeerInfo) (count : Nat) :
    Option (List PeerInfo) := do
  if t.totalPeers ≤ count then return t.getAllPeers
  let distance := t.distance peer
  let flags ← t.tree.entries.mapM fun e => retains distance e.1
  let clonedTree := ((t.tree.entries.zip flags).filter Prod.snd).map Prod.fst
  let total := clonedTree.foldl (fun acc e => acc + e.2.size) 0
  if clonedTree.isEmpty ∨ total < count then return closestOf peer t.getAllPeers count
  let closest := clonedTree.map fun e => (e.1, e.2.getNodes)
  let closest := (closest.insertionSort fun a b => a.1.length ≤ b.1.length).reverse
  return closestOf peer (collect count closest) count

/-- The bucket a peer is removed from: its index is the number of leading zeros of the distance, at
most the number of buckets less one. -/
def removalPrefix (t : RoutingTable M) (key : Key) : Option (List Char) := do
  let distance := t.localInfo.key.xor key
  if t.tree.len = 0 then none
  let index := min distance.leadingZeros (t.tree.len - 1)
  distance.getPrefix index

def removeLru (t : RoutingTable M) (peerKey : InnerKey) :
    Option (Option PeerInfo × RoutingTable M) := do
  let pre ← t.removalPrefix ⟨peerKey⟩
  match t.tree.lookup pre with
  | some bucket =>
    let (removed, bucket) ← bucket.removeLru
    return (removed, { t with tree := t.tree.insert pre bucket })
  | none => return (none, t)

def removePeer (t : RoutingTable M) (peer : PeerInfo) : Option (RoutingTable M) := do
  let pre ← t.removalPrefix peer.key
  match t.tree.lookup pre with
  | some bucket =>
    let (_, bucket) := bucket.removePeer peer
    return { t with tree := t.tree.insert pre bucket }
  | none => return t

/-- The loop of `get_stale_indices`; the clock is read once for each bucket. -/
def staleFrom (clock : Nat → Nat) :
    Nat → List (Σ _ : List Char, KBucket M) → Option (List (List Char))
  | _, [] => some []
  | i, ⟨pre, bucket⟩ :: es => do
    let stale ← bucket.isStale (clock i)
    let ret ← staleFrom clock (i + 1) es
    return if stale then pre :: ret else ret

def getStaleIndices (t : RoutingTable M) (clock : Nat → Nat) : Option (List (List Char)) :=
  staleFrom clock 0 t.tree.entries

def isNew (t : RoutingTable M) (peer : PeerInfo) : Bool :=
  !(t.tree.entries.any fun e => e.2.contains peer)

/-- What happens to a routing table; `now` is the clock reading. -/
inductive Op where
  | updatePeer (peer : PeerInfo) (now : Nat)
  | removePeer (peer : PeerInfo)
  | removeLru (peerKey : InnerKey)
  deriving DecidableEq

/-- A routing table under its operations; the outputs are the peers `remove_lru` returns. -/
def machine : Machine (RoutingTable M) Op PeerInfo where
  step t
    | .updatePeer peer now => (t.updatePeer peer 0 now).map fun r => (r.1, [])
    | .removePeer peer => (t.removePeer peer).map fun t => (t, [])
    | .removeLru peerKey => (t.removeLru peerKey).map fun r => (r.2, r.1.toList)

/-! ## What the operations do -/

open PrefixTree

/-- The name of the bucket a peer is stored in: the shortest prefix of its distance string that
names no full bucket. -/
def destination (t : RoutingTable M) (peer : PeerInfo) : Option (List Char) :=
  place KBucket.isFull t.tree (t.distance peer).getBinary

/-- Store the peer in the bucket named `k`. -/
def put (t : RoutingTable M) (peer : PeerInfo) (now : Nat) (k : List Char) : RoutingTable M :=
  { t with
    tree := t.tree.insert k (((t.tree.lookup k).getD (KBucket.new now)).upsert peer now) }

/-- The recursion, from any depth on. -/
theorem updatePeer_from (t : RoutingTable M) (peer : PeerInfo) (traverse now : Nat) :
    t.updatePeer peer traverse now =
      (placeFrom KBucket.isFull t.tree traverse (t.distance peer).getBinary).map
        fun k => (t.put peer now k, true) := by
  induction hn : (t.distance peer).getBinary.length - traverse generalizing traverse with
  | zero =>
    -- past the end of the string there is no prefix left
    have htake : (t.distance peer).getPrefix traverse = none := by
      rw [Key.getPrefix_eq, if_neg (by omega)]
    rw [updatePeer, placeFrom, prefixesFrom_of_le (by omega)]
    split
    · rfl
    · next h =>
      rw [htake] at h
      cases h
  | succ n ih =>
    have htake : (t.distance peer).getPrefix traverse =
        some ((t.distance peer).getBinary.take (traverse + 1)) := by
      rw [Key.getPrefix_eq, if_pos (by omega)]
    have hrest := ih (traverse + 1) (by omega)
    rw [placeFrom] at hrest
    rw [updatePeer, placeFrom, prefixesFrom_of_lt (by omega), List.find?_cons]
    split
    · next h =>
      rw [htake] at h
      cases h
    · next h =>
      rw [htake, Option.some.injEq] at h
      subst h
      generalize (t.distance peer).getBinary.take (traverse + 1) = pre
      cases hlook : t.tree.lookup pre with
      | none =>
        have hroom : HasRoom KBucket.isFull t.tree pre := fun b hb => by
          rw [hlook] at hb
          cases hb
        simp [hroom, put, hlook]
      | some bucket =>
        cases hfull : bucket.isFull with
        | false =>
          have hroom : HasRoom KBucket.isFull t.tree pre := fun b hb => by
            rw [hlook, Option.some.injEq] at hb
            exact hb ▸ hfull
          simp [hroom, put, hlook, hfull]
        | true =>
          have hroom : ¬ HasRoom KBucket.isFull t.tree pre := fun hroom => by
            have := hroom bucket hlook
            rw [hfull] at this
            cases this
          simp [hroom, hfull, hrest]

/-- **`update_peer`** stores the peer at its destination, and panics iff it has none. -/
theorem updatePeer_eq (t : RoutingTable M) (peer : PeerInfo) (now : Nat) :
    t.updatePeer peer 0 now = (t.destination peer).map fun k => (t.put peer now k, true) :=
  updatePeer_from t peer 0 now

/-- What is left of a bucket after a removal: some of its entries. -/
def Shrinks (b b' : KBucket M) : Prop := b'.entries.Sublist b.entries

/-- The table is left as it is, or one of its buckets shrinks. -/
def Pruned (t t' : RoutingTable M) : Prop :=
  t' = t ∨ ∃ k b b', t.tree.lookup k = some b ∧ Shrinks b b' ∧
    t' = { t with tree := t.tree.insert k b' }

theorem pruned_of_removeLru {t t' : RoutingTable M} {peerKey : InnerKey} {removed : Option PeerInfo}
    (h : t.removeLru peerKey = some (removed, t')) : Pruned t t' := by
  obtain ⟨pre, -, h⟩ := Option.bind_eq_some_iff.mp h
  cases hlook : t.tree.lookup pre with
  | none =>
    simp only [hlook] at h
    cases h
    exact Or.inl rfl
  | some b =>
    simp only [hlook] at h
    obtain ⟨⟨removed', b'⟩, hremove, heq⟩ := Option.bind_eq_some_iff.mp h
    cases heq
    exact Or.inr ⟨pre, b, b', hlook, (KBucket.removeLru_eq_some hremove).1.sublist, rfl⟩

theorem pruned_of_removePeer {t t' : RoutingTable M} {peer : PeerInfo}
    (h : t.removePeer peer = some t') : Pruned t t' := by
  obtain ⟨pre, -, h⟩ := Option.bind_eq_some_iff.mp h
  cases hlook : t.tree.lookup pre with
  | none =>
    simp only [hlook] at h
    cases h
    exact Or.inl rfl
  | some b =>
    simp only [hlook] at h
    cases h
    refine Or.inr ⟨pre, b, (b.removePeer peer).2, hlook, ?_, rfl⟩
    rw [Shrinks, KBucket.entries_removePeer]
    exact List.filter_sublist

theorem step_updatePeer_eq_some {t t' : RoutingTable M} {peer : PeerInfo} {now : Nat}
    {out : List PeerInfo} (h : machine.step t (.updatePeer peer now) = some (t', out)) :
    ∃ k, t.destination peer = some k ∧ t' = t.put peer now k ∧ out = [] := by
  obtain ⟨r, hr, heq⟩ := Option.map_eq_some_iff.mp h
  rw [updatePeer_eq] at hr
  obtain ⟨k, hk, rfl⟩ := Option.map_eq_some_iff.mp hr
  cases heq
  exact ⟨k, hk, rfl, rfl⟩

/-- **What a step does**: it stores a peer at its destination, leaves the table as it is, or takes
entries out of one bucket. -/
theorem step_cases {t t' : RoutingTable M} {op : Op} {out : List PeerInfo}
    (h : machine.step t op = some (t', out)) :
    (∃ peer now k, op = .updatePeer peer now ∧ t.destination peer = some k ∧
      t' = t.put peer now k) ∨
    (∀ peer now, op ≠ .updatePeer peer now) ∧ Pruned t t' := by
  cases op with
  | updatePeer peer now =>
    obtain ⟨k, hk, rfl, -⟩ := step_updatePeer_eq_some h
    exact Or.inl ⟨peer, now, k, rfl, hk, rfl⟩
  | removePeer peer =>
    obtain ⟨r, hr, heq⟩ := Option.map_eq_some_iff.mp h
    cases heq
    apply Or.inr
    exact ⟨fun _ _ => Op.noConfusion, pruned_of_removePeer hr⟩
  | removeLru peerKey =>
    obtain ⟨⟨removed, r⟩, hr, heq⟩ := Option.map_eq_some_iff.mp h
    cases heq
    apply Or.inr
    exact ⟨fun _ _ => Op.noConfusion, pruned_of_removeLru hr⟩

/-- An update returns iff the peer has a destination. -/
theorem step_updatePeer_isSome {t : RoutingTable M} {peer : PeerInfo} {now : Nat} :
    (machine.step t (.updatePeer peer now)).isSome ↔ (t.destination peer).isSome := by
  simp [machine, updatePeer_eq]

theorem step_of_destination {t : RoutingTable M} {peer : PeerInfo} {now : Nat} {k : List Char}
    (hk : t.destination peer = some k) :
    machine.step t (.updatePeer peer now) = some (t.put peer now k, []) := by
  simp [machine, updatePeer_eq, hk]

/-! ## Sizes -/

theorem length_getNodes (b : KBucket M) : b.getNodes.length = b.size := by
  rw [KBucket.getNodes, List.length_map, KBucket.size_eq]
  rfl

theorem foldl_size (l : List (Σ _ : List Char, KBucket M)) (acc : Nat) :
    l.foldl (fun acc e => acc + e.2.size) acc =
      acc + (l.map fun e => e.2.getNodes.length).sum := by
  induction l generalizing acc with
  | nil => rfl
  | cons e l ih =>
    rw [List.foldl_cons, ih, List.map_cons, List.sum_cons, length_getNodes, Nat.add_assoc]

/-- `total_peers` counts what `get_all_peers` returns. -/
theorem length_getAllPeers (t : RoutingTable M) : t.getAllPeers.length = t.totalPeers := by
  rw [getAllPeers, List.length_flatten, totalPeers, foldl_size, List.map_map, Nat.zero_add]
  rfl

/-! ## Peers for examples -/

/-- The reference bucket map. -/
abbrev ListedNodes := LinkedHashMap.Listed PeerId PeerInfo

/-- A peer with a key that starts with the given byte. -/
def somePeer (id : String) (byte : UInt8) : PeerInfo where
  id := ⟨id⟩
  key := ⟨byte ::ᵥ List.Vector.replicate 31 0⟩
  ip := .localhost
  port := 9292
  address := .v4 .localhost 9292

def localPeer : PeerInfo := somePeer "" 0

/-- Peers with one key, each with an id of its own. -/
def peerAt (byte : UInt8) (i : Nat) : PeerInfo :=
  somePeer (String.ofList (List.replicate (i + 1) 'p')) byte

theorem peerAt_id_injective {byte : UInt8} {i j : Nat}
    (h : (peerAt byte i).id = (peerAt byte j).id) : i = j := by
  have hlist := congrArg (fun p : PeerId => p.id.toList.length) h
  simpa [peerAt, somePeer] using hlist

end RoutingTable

end Udp2p
