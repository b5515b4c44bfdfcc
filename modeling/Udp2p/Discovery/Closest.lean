import Udp2p.Discovery.Invariant

/-!
# Does `get_closest_peers` return the closest peers?

The fast path looks at the buckets whose names are prefixes of the distance string of the target,
deepest first, until it has enough peers. What it walks is computed in `walk_perm`: the buckets on
the path such that those deeper on the path hold fewer than `count` peers. The names are prefixes
of unpadded binary strings of distances to the *local* key, so a peer near the target may well be
elsewhere.

* `closest_iff` — the result is a choice of nearest peers iff one of the slow paths was taken, or
  every peer outside the buckets walked has `count` peers in them that are no farther.
* `nearer_peer_left_out` — two peers, the farther of which is returned.
-/

namespace Udp2p

namespace RoutingTable

open PrefixTree

variable {M : Type} [LinkedHashMap PeerId PeerInfo M]

/-- The buckets' names and peers. -/
def named (t : RoutingTable M) : List (List Char × List PeerInfo) :=
  t.tree.entries.map fun e => (e.1, e.2.getNodes)

/-- The number of peers in the buckets of `l` with names longer than `k`. -/
def deeper (l : List (List Char × List PeerInfo)) (k : List Char) : Nat :=
  ((l.filter fun e => k.length < e.1.length).map fun e => e.2.length).sum

/-- The buckets whose names are prefixes of the target's distance string. -/
def onPath (t : RoutingTable M) (peer : PeerInfo) : List (List Char × List PeerInfo) :=
  t.named.filter fun e => decide (e.1 <+: (t.distance peer).getBinary)

/-- The bucket is on the path, and those deeper on it hold fewer than `count` peers. -/
def Walked (t : RoutingTable M) (peer : PeerInfo) (count : Nat) (k : List Char) : Prop :=
  k <+: (t.distance peer).getBinary ∧ deeper (t.onPath peer) k < count

instance (t : RoutingTable M) (peer : PeerInfo) (count : Nat) :
    DecidablePred (t.Walked peer count) :=
  fun k => inferInstanceAs (Decidable (k <+: _ ∧ deeper _ k < count))

/-- The peers in the buckets walked. -/
def walkedPeers (t : RoutingTable M) (peer : PeerInfo) (count : Nat) : List PeerInfo :=
  (t.named.filter fun e => decide (t.Walked peer count e.1)).flatMap Prod.snd

/-- The peers in the other buckets. -/
def otherPeers (t : RoutingTable M) (peer : PeerInfo) (count : Nat) : List PeerInfo :=
  (t.named.filter fun e => !decide (t.Walked peer count e.1)).flatMap Prod.snd

/-- The result is `min(count, total_peers())` peers of the table, none used twice, and none left out
that is strictly closer to the target. -/
def Closest (t : RoutingTable M) (peer : PeerInfo) (count : Nat) (res : List PeerInfo) : Prop :=
  res.length = min count t.totalPeers ∧
    IsNearest (fun p : PeerInfo => p.key.xor peer.key) t.getAllPeers count res

/-! ## Sizes -/

theorem getAllPeers_eq (t : RoutingTable M) : t.getAllPeers = t.named.flatMap Prod.snd := by
  rw [getAllPeers, named, List.flatMap_map, List.flatMap]

theorem closest_iff_isNearest {t : RoutingTable M} {peer : PeerInfo} {count : Nat}
    {res : List PeerInfo} : t.Closest peer count res ↔
      IsNearest (fun p : PeerInfo => p.key.xor peer.key) t.getAllPeers count res := by
  rw [Closest, ← length_getAllPeers]
  constructor
  · intro h
    exact h.2
  · intro h
    exact ⟨h.1, h⟩

/-! ## The buckets kept -/

theorem retains_eq_some {distance : Key} {k : List Char} {b : Bool}
    (h : retains distance k = some b) : b = decide (k <+: distance.getBinary) := by
  unfold retains at h
  split at h
  · cases h
  · next hlen =>
    obtain ⟨pre, hpre, heq⟩ := Option.bind_eq_some_iff.mp h
    rw [Key.getPrefix_eq] at hpre
    split at hpre
    · cases hpre
      cases heq
      rw [Nat.sub_add_cancel (Nat.pos_of_ne_zero hlen)]
      exact decide_eq_decide.mpr (eq_comm.trans List.prefix_iff_eq_take.symm)
    · cases hpre

theorem filter_zip_map {α : Type} (l : List α) (p : α → Bool) :
    ((l.zip (l.map p)).filter Prod.snd).map Prod.fst = l.filter p := by
  induction l with
  | nil => rfl
  | cons a l ih => grind

/-- `get_closest_peers`, with the buckets kept written as `onPath`. -/
theorem getClosestPeers_eq {t : RoutingTable M} {peer : PeerInfo} {count : Nat}
    {res : List PeerInfo} (h : t.getClosestPeers peer count = some res) :
    res = if t.totalPeers ≤ count then t.getAllPeers
      else if t.onPath peer = [] ∨ ((t.onPath peer).map fun e => e.2.length).sum < count then
        closestOf peer t.getAllPeers count
      else closestOf peer (collect count
        ((t.onPath peer).insertionSort fun a b => a.1.length ≤ b.1.length).reverse) count := by
  unfold getClosestPeers at h
  by_cases hall : t.totalPeers ≤ count
  · rw [if_pos hall] at h ⊢
    exact (Option.some.inj h).symm
  · rw [if_neg hall] at h ⊢
    obtain ⟨flags, hflags, h⟩ := Option.bind_eq_some_iff.mp h
    have hcloned : ((t.tree.entries.zip flags).filter Prod.snd).map Prod.fst =
        t.tree.entries.filter fun e => decide (e.1 <+: (t.distance peer).getBinary) := by
      rw [eq_map_of_mapM_eq_some (fun _ _ => retains_eq_some) hflags, filter_zip_map]
    have honPath : (t.tree.entries.filter fun e =>
        decide (e.1 <+: (t.distance peer).getBinary)).map (fun e => (e.1, e.2.getNodes)) =
          t.onPath peer := by
      rw [onPath, named, List.filter_map]
      rfl
    have hnil : (t.tree.entries.filter fun e =>
        decide (e.1 <+: (t.distance peer).getBinary)).isEmpty = true ↔ t.onPath peer = [] := by
      rw [← honPath, List.map_eq_nil_iff, List.isEmpty_iff]
    have hsum : ((t.tree.entries.filter fun e =>
        decide (e.1 <+: (t.distance peer).getBinary)).map fun e => e.2.getNodes.length).sum =
          ((t.onPath peer).map fun e => e.2.length).sum := by
      rw [← honPath, List.map_map]
      rfl
    simp only [hcloned, foldl_size, hsum, Nat.zero_add, hnil, honPath] at h
    split at h
    · next hslow =>
      rw [if_pos hslow]
      exact (Option.some.inj h).symm
    · next hfast =>
      rw [if_neg hfast]
      exact (Option.some.inj h).symm

/-! ## The walk -/

theorem deeper_cons (e : List Char × List PeerInfo) (l : List (List Char × List PeerInfo))
    (k : List Char) : deeper (e :: l) k =
      (if k.length < e.1.length then e.2.length else 0) + deeper l k := by
  grind [deeper]

theorem deeper_perm {l l' : List (List Char × List PeerInfo)} (h : l.Perm l') (k : List Char) :
    deeper l k = deeper l' k :=
  ((h.filter _).map _).sum_eq

/-- Over buckets in order of depth, the walk takes those with fewer than `count` peers before them,
counting the peers it starts with. -/
theorem fill_eq (count : Nat) {l : List (List Char × List PeerInfo)}
    (hdesc : l.Pairwise fun a b => b.1.length < a.1.length) (ret : List PeerInfo) :
    fill count ret l = ret ++
      (l.filter fun e => decide (ret.length + deeper l e.1 < count)).flatMap Prod.snd := by
  induction l generalizing ret with
  | nil => simp [fill]
  | cons e l ih =>
    obtain ⟨hfirst, hrest⟩ := List.pairwise_cons.mp hdesc
    -- nothing is deeper than the first bucket, and the first is deeper than all others
    have hself : deeper (e :: l) e.1 = 0 := by
      rw [deeper_cons, if_neg (Nat.lt_irrefl _), Nat.zero_add, deeper,
        List.filter_eq_nil_iff.mpr fun e' he' => by simpa using Nat.le_of_lt (hfirst e' he')]
      rfl
    have hother : ∀ e' ∈ l, deeper (e :: l) e'.1 = e.2.length + deeper l e'.1 := by
      intro e' he'
      rw [deeper_cons, if_pos (hfirst e' he')]
    obtain ⟨k, nodes⟩ := e
    rw [fill, List.filter_cons, hself, Nat.add_zero]
    by_cases hlt : ret.length < count
    · have hcongr :
          (l.filter fun e' => decide (ret.length + deeper ((k, nodes) :: l) e'.1 < count)) =
            l.filter fun e' => decide ((ret ++ nodes).length + deeper l e'.1 < count) := by
        apply List.filter_congr
        intro e' he'
        rw [hother e' he', List.length_append, Nat.add_assoc]
      rw [if_pos hlt, ih hrest, if_pos (decide_eq_true hlt), hcongr, List.flatMap_cons,
        List.append_assoc]
    · have hnone : (l.filter fun e' =>
          decide (ret.length + deeper ((k, nodes) :: l) e'.1 < count)) = [] := by
        rw [List.filter_eq_nil_iff]
        intro e' he'
        simp only [decide_eq_true_eq]
        omega
      rw [if_neg hlt, if_neg (by simpa using hlt), hnone, List.flatMap_nil, List.append_nil]

/-- The walk finds `count` peers if there are that many. -/
theorem le_length_fill {count : Nat} {l : List (List Char × List PeerInfo)} {ret : List PeerInfo}
    (h : count ≤ ret.length + (l.map fun e => e.2.length).sum) :
    count ≤ (fill count ret l).length := by
  induction l generalizing ret with
  | nil => simpa [fill] using h
  | cons e l ih =>
    obtain ⟨k, nodes⟩ := e
    rw [fill]
    split
    · apply ih
      rw [List.map_cons, List.sum_cons] at h
      rw [List.length_append, Nat.add_assoc]
      exact h
    · next hge => exact Nat.le_of_not_lt hge

theorem collect_eq_fill {count : Nat} (hcount : 0 < count)
    (l : List (List Char × List PeerInfo)) : collect count l = fill count [] l := by
  cases l with
  | nil => rfl
  | cons e l => simp [collect, fill, hcount]

/-- The buckets on the path, deepest first: no two have names of the same length. -/
theorem pairwise_sorted (t : RoutingTable M) (peer : PeerInfo) :
    (((t.onPath peer).insertionSort fun a b => a.1.length ≤ b.1.length).reverse).Pairwise
      fun a b => b.1.length < a.1.length := by
  have hne : (t.onPath peer).Pairwise fun a b => a.1.length ≠ b.1.length := by
    have hkeys : t.named.Pairwise fun a b => a.1 ≠ b.1 := by
      rw [named, List.pairwise_map]
      exact List.nodupKeys_iff_pairwise.mp t.tree.nodupKeys
    -- two prefixes of one string with one length would be one name
    apply (hkeys.sublist List.filter_sublist).imp_of_mem
    intro a b ha hb hab hlen
    have hpa : a.1 <+: (t.distance peer).getBinary := by simpa using (List.mem_filter.mp ha).2
    have hpb : b.1 <+: (t.distance peer).getBinary := by simpa using (List.mem_filter.mp hb).2
    exact hab (eq_of_prefix_of_length_eq hpa hpb hlen)
  have hsorted := pairwise_sort (d := fun e : List Char × List PeerInfo => e.1.length)
    (t.onPath peer)
  have hne' := ((List.perm_insertionSort (fun a b : List Char × List PeerInfo =>
    a.1.length ≤ b.1.length) (t.onPath peer)).pairwise_iff (fun h => Ne.symm h)).mpr hne
  rw [List.pairwise_reverse]
  exact (hsorted.and hne').imp fun h => Nat.lt_of_le_of_ne h.1 h.2

/-- **The walk** collects the peers of the buckets walked. -/
theorem walk_perm (t : RoutingTable M) (peer : PeerInfo) {count : Nat} (hcount : 0 < count) :
    (collect count ((t.onPath peer).insertionSort fun a b =>
      a.1.length ≤ b.1.length).reverse).Perm (t.walkedPeers peer count) := by
  have hperm : ((t.onPath peer).insertionSort fun a b => a.1.length ≤ b.1.length).reverse.Perm
      (t.onPath peer) := (List.reverse_perm _).trans (List.perm_insertionSort _ _)
  have hwalked : t.named.filter (fun e => decide (t.Walked peer count e.1)) =
      (t.onPath peer).filter fun e => decide (deeper (t.onPath peer) e.1 < count) := by
    rw [onPath, List.filter_filter]
    apply List.filter_congr
    intro e _
    rw [Bool.and_comm, ← Bool.decide_and]
    rfl
  rw [collect_eq_fill hcount, fill_eq count (t.pairwise_sorted peer), List.nil_append, walkedPeers,
    hwalked]
  apply List.Perm.flatMap_right
  simp only [List.length_nil, Nat.zero_add, deeper_perm hperm]
  exact hperm.filter _

/-! ## The result -/

theorem walked_perm_all (t : RoutingTable M) (peer : PeerInfo) (count : Nat) :
    (t.walkedPeers peer count ++ t.otherPeers peer count).Perm t.getAllPeers := by
  rw [walkedPeers, otherPeers, ← List.flatMap_append, getAllPeers_eq]
  exact (List.filter_append_perm _ _).flatMap_right _

/-- With `count` peers on the path, the walk finds that many. -/
theorem le_length_collect {t : RoutingTable M} {peer : PeerInfo} {count : Nat} (hcount : 0 < count)
    (h : count ≤ ((t.onPath peer).map fun e => e.2.length).sum) :
    count ≤ (collect count ((t.onPath peer).insertionSort fun a b =>
      a.1.length ≤ b.1.length).reverse).length := by
  rw [collect_eq_fill hcount]
  apply le_length_fill
  rw [List.length_nil, Nat.zero_add,
    (((List.reverse_perm _).trans (List.perm_insertionSort _ _)).map _).sum_eq]
  exact h

/-- **The peers returned** are `min(count, total_peers())` peers of the table, none used twice. -/
theorem perm_of_getClosestPeers {t : RoutingTable M} {peer : PeerInfo} {count : Nat}
    {res : List PeerInfo} (h : t.getClosestPeers peer count = some res) :
    res.length = min count t.totalPeers ∧ ∃ rest, (res ++ rest).Perm t.getAllPeers := by
  rw [getClosestPeers_eq h]
  split
  · next hall =>
    rw [length_getAllPeers, Nat.min_eq_right hall]
    exact ⟨rfl, [], by rw [List.append_nil]⟩
  · next hall =>
    split
    · obtain ⟨hlen, rest, hperm, -⟩ := isNearest_sort_take
        (d := fun p : PeerInfo => p.key.xor peer.key) t.getAllPeers count
      rw [length_getAllPeers] at hlen
      exact ⟨hlen, rest, hperm⟩
    · next hfast =>
      rcases Nat.eq_zero_or_pos count with rfl | hcount
      · exact ⟨(Nat.zero_min _).symm, t.getAllPeers, List.Perm.refl _⟩
      · have henough := le_length_collect hcount (Nat.le_of_not_lt (not_or.mp hfast).2)
        constructor
        · rw [closestOf, length_sortTake, Nat.min_eq_left henough,
            Nat.min_eq_left (Nat.le_of_not_le hall)]
        · -- what is left out is what is cut off, and the buckets that were not walked
          have hperm := (sortTake_perm (d := fun p : PeerInfo => p.key.xor peer.key) _
            count).append_right (t.otherPeers peer count) |>.trans
              (((t.walk_perm peer hcount).append_right _).trans (t.walked_perm_all peer count))
          rw [List.append_assoc] at hperm
          exact ⟨_, hperm⟩

/-- **The closest peers**, exactly: the result of `get_closest_peers` is a choice of nearest peers
iff everything is wanted, or too few peers are on the path, or every peer outside the buckets
walked has `count` peers in them that are no farther from the target. -/
theorem closest_iff {t : RoutingTable M} {peer : PeerInfo} {count : Nat} {res : List PeerInfo}
    (h : t.getClosestPeers peer count = some res) :
    t.Closest peer count res ↔
      t.totalPeers ≤ count ∨ t.onPath peer = [] ∨
      ((t.onPath peer).map fun e => e.2.length).sum < count ∨
      ∀ y ∈ t.otherPeers peer count, count ≤ (t.walkedPeers peer count).countP fun x =>
        x.key.xor peer.key ≤ y.key.xor peer.key := by
  rw [closest_iff_isNearest, getClosestPeers_eq h]
  split
  · next hall =>
    refine iff_of_true (isNearest_all ?_) (Or.inl hall)
    rw [length_getAllPeers]
    exact hall
  · next hall =>
    split
    · next hslow =>
      refine iff_of_true (isNearest_sort_take _ _) (Or.inr ?_)
      rcases hslow with hnil | hfew
      · exact Or.inl hnil
      · exact Or.inr (Or.inl hfew)
    · next hfast =>
      obtain ⟨hnil, hfew⟩ := not_or.mp hfast
      simp only [hall, hnil, hfew, false_or]
      rcases Nat.eq_zero_or_pos count with rfl | hcount
      · -- nothing is wanted
        refine iff_of_true ?_ fun _ _ => Nat.zero_le _
        exact ⟨rfl, t.getAllPeers, List.Perm.refl _, fun x hx => nomatch hx⟩
      · have hwalk := t.walk_perm peer hcount
        have hperm := (hwalk.append_right (t.otherPeers peer count)).trans
          (t.walked_perm_all peer count)
        have henough := le_length_collect hcount (Nat.le_of_not_lt hfew)
        rw [closestOf, isNearest_pool_iff hperm henough]
        simp only [hwalk.countP_eq]

/-! ## Two peers -/

/-- The local peer, whose key is zero, and one whose key starts with a one. -/
def twoPeers : RoutingTable ListedNodes := (new localPeer 0).put (peerAt 128 0) 0 ['1']

/-- A peer whose key is seven zeros, a one and zeros: the binary string of its distance starts with
that one. -/
def someTarget : PeerInfo := somePeer "t" 1

theorem run_twoPeers :
    machine.run (new localPeer 0) (updates [(peerAt 128 0, 0)]) = some (twoPeers, []) :=
  machine.run_singleton_eq_some.mpr (step_of_destination (by decide))

theorem closest_twoPeers : twoPeers.getClosestPeers someTarget 1 = some [peerAt 128 0] := by
  decide

theorem twoPeers_closest_iff :
    twoPeers.Closest someTarget 1 [peerAt 128 0] ↔
      twoPeers.totalPeers ≤ 1 ∨ twoPeers.onPath someTarget = [] ∨
      ((twoPeers.onPath someTarget).map fun e => e.2.length).sum < 1 ∨
      ∀ y ∈ twoPeers.otherPeers someTarget 1,
        1 ≤ (twoPeers.walkedPeers someTarget 1).countP fun x =>
          x.key.xor someTarget.key ≤ y.key.xor someTarget.key :=
  closest_iff closest_twoPeers

/-- The bucket on the path holds a peer that differs from the target in the first bit; the local
peer, in the other bucket, differs in the eighth only. -/
theorem nearer_peer_left_out :
    ¬ ∀ (localInfo : PeerInfo) (now : Nat) (ups : List (PeerInfo × Nat))
      (t : RoutingTable ListedNodes) (outs : List PeerInfo),
      machine.run (new localInfo now) (updates ups) = some (t, outs) →
      ∀ peer count res, t.getClosestPeers peer count = some res → t.Closest peer count res := by
  intro hall
  obtain ⟨-, -, rest, hperm, hfar⟩ :=
    hall _ _ _ _ _ run_twoPeers someTarget 1 _ closest_twoPeers
  have hlocal : localPeer ∈ [peerAt 128 0] ++ rest := hperm.mem_iff.mpr (by decide)
  have hrest : localPeer ∈ rest := by
    rcases List.mem_append.mp hlocal with h | h
    · exact absurd h (by decide)
    · exact h
  exact hfar _ (List.mem_singleton_self _) _ hrest (by decide)

end RoutingTable

end Udp2p
