import Mathlib.Data.Finset.Card
import Mathlib.Data.Finset.Image
import Udp2p.Discovery.Closest
import Udp2p.Gossip.Suppression

/-!
# Who is a message published to?

All of the peers found are chosen when they are at most seven; of more, those drawn, and a peer may
be drawn again and again. What is filtered out then is the source and the address the service is
bound to.

* `mem_recipients` — the recipients are the addresses chosen, less these two.
* `discreet_iff` — the local node is spared iff the address it advertises is one of these two, or is
  not chosen.
* `floor_iff` — the minimum of the configuration, which `publish` does not read, is reached whatever
  is drawn iff few peers are found, or nothing is asked for, or one recipient is and no draw misses.
-/

namespace Udp2p

namespace GossipService

open RoutingTable

variable {M : Type} [LinkedHashMap PeerId PeerInfo M]

/-- The addresses published to, in this order. -/
def recipients (out : List GossipSend) : List SocketAddr :=
  out.filterMap fun
    | .toTransport dst _ => some dst
    | _ => none

/-- The peers `publish` looks up. -/
def found (s : GossipService M) : Option (List PeerInfo) :=
  s.kad.routingTable.getClosestPeers s.kad.routingTable.localInfo 30

/-- The peer at place `j` is chosen: few are found, or it is drawn. -/
def Chosen (s : GossipService M) (peers : List PeerInfo) (j : Nat) : Prop :=
  7 < peers.length → ∃ i < s.config.infected peers.length, s.picks i % peers.length = j

/-! ## Recipients -/

theorem recipients_map (l : List SocketAddr) (message : Message) :
    recipients (l.map fun peer => .toTransport peer message) = l := by
  rw [recipients, List.filterMap_map]
  exact List.filterMap_some

/-- `publish` returns iff the peers are found, and sends copies of the message alone. -/
theorem publish_eq_some {s s' : GossipService M} {src : SocketAddr} {message : Message}
    {out : List GossipSend} (h : s.publish src message = some (s', out)) : ∃ peers,
      s.found = some peers ∧
      recipients out = (s.sample src peers).toList.filter (fun a => a ≠ src) ∧
      out = (recipients out).map fun peer => .toTransport peer message := by
  obtain ⟨peers, hpeers, heq⟩ := Option.bind_eq_some_iff.mp h
  cases heq
  rw [recipients_map]
  exact ⟨peers, hpeers, rfl, rfl⟩

theorem publish_isSome {s : GossipService M} {peers : List PeerInfo} (h : s.found = some peers)
    (src : SocketAddr) (message : Message) : ∃ s' out, s.publish src message = some (s', out) := by
  rw [publish, show s.kad.routingTable.getClosestPeers _ 30 = some peers from h]
  exact ⟨_, _, rfl⟩

omit [LinkedHashMap PeerId PeerInfo M] in
/-- A draw is the place of a peer. -/
theorem mem_drawAddresses {s : GossipService M} {peers : List PeerInfo} {n : Nat} {a : SocketAddr} :
    a ∈ s.drawAddresses peers n ↔
      ∃ i < n, ∃ p, peers[s.picks i % peers.length]? = some p ∧ p.address = a := by
  simp only [drawAddresses, List.mem_filterMap, List.mem_range, Option.map_eq_some_iff]

omit [LinkedHashMap PeerId PeerInfo M] in
theorem mem_sample {s : GossipService M} {src : SocketAddr} {peers : List PeerInfo}
    {a : SocketAddr} : a ∈ (s.sample src peers).toList ∧ a ≠ src ↔
      (∃ j p, peers[j]? = some p ∧ p.address = a ∧ s.Chosen peers j) ∧ a ≠ src ∧ a ≠ s.address := by
  rw [← HashSet.mem_def, sample]
  unfold Chosen
  split
  · next hmany =>
    simp only [HashSet.mem_foldl_insert, List.mem_filter, mem_drawAddresses, HashSet.notMem_empty,
      or_false, decide_eq_true_eq, hmany, true_imp_iff]
    constructor
    · rintro ⟨⟨⟨i, hi, p, hp, ha⟩, hfiltered⟩, -⟩
      exact ⟨⟨_, p, hp, ha, i, hi, rfl⟩, hfiltered⟩
    · rintro ⟨⟨j, p, hp, ha, i, hi, rfl⟩, hfiltered⟩
      exact ⟨⟨⟨i, hi, p, hp, ha⟩, hfiltered⟩, hfiltered.1⟩
  · next hfew =>
    simp only [HashSet.mem_foldl_insert, List.mem_filter, List.mem_map, HashSet.notMem_empty,
      or_false, decide_eq_true_eq, hfew, false_imp_iff, and_true]
    constructor
    · rintro ⟨⟨⟨p, hp, ha⟩, hself⟩, hsrc⟩
      obtain ⟨j, hj⟩ := List.mem_iff_getElem?.mp hp
      exact ⟨⟨j, p, hj, ha⟩, hsrc, hself⟩
    · rintro ⟨⟨j, p, hj, ha⟩, hsrc, hself⟩
      exact ⟨⟨⟨p, List.mem_of_getElem? hj, ha⟩, hself⟩, hsrc⟩

/-- **The recipients** are the addresses of the peers chosen, other than the source and the address
the service is bound to. -/
theorem mem_recipients {s s' : GossipService M} {src : SocketAddr} {message : Message}
    {out : List GossipSend} {peers : List PeerInfo} (hpeers : s.found = some peers)
    (h : s.publish src message = some (s', out)) {a : SocketAddr} :
    a ∈ recipients out ↔
      (∃ j p, peers[j]? = some p ∧ p.address = a ∧ s.Chosen peers j) ∧ a ≠ src ∧ a ≠ s.address := by
  obtain ⟨peers', hpeers', heq, -⟩ := publish_eq_some h
  rw [hpeers, Option.some.injEq] at hpeers'
  subst hpeers'
  rw [heq, List.mem_filter, decide_eq_true_eq, mem_sample]

theorem nodup_recipients {s s' : GossipService M} {src : SocketAddr} {message : Message}
    {out : List GossipSend} (h : s.publish src message = some (s', out)) :
    (recipients out).Nodup := by
  obtain ⟨peers, -, heq, -⟩ := publish_eq_some h
  rw [heq]
  exact (s.sample src peers).nodup.filter _

/-- Whoever is found is in the table. -/
theorem mem_of_found {s : GossipService M} {peers : List PeerInfo} (h : s.found = some peers)
    {p : PeerInfo} (hp : p ∈ peers) : p ∈ s.kad.routingTable.getAllPeers := by
  obtain ⟨-, rest, hperm⟩ := perm_of_getClosestPeers h
  exact hperm.mem_iff.mp (List.mem_append_left rest hp)

/-! ## Neither back nor to itself -/

/-- At most one copy goes to an address, and only to those of peers of the table; none to the
source, and none to the local node, under the address it is bound to or the one it advertises. -/
structure Discreet (s : GossipService M) (src : SocketAddr) (out : List GossipSend) : Prop where
  once : (recipients out).Nodup
  known : ∀ a ∈ recipients out, ∃ p ∈ s.kad.routingTable.getAllPeers, p.address = a
  source : src ∉ recipients out
  bound : s.address ∉ recipients out
  advertised : s.kad.routingTable.localInfo.address ∉ recipients out

/-- A peer with the address the local node advertises is chosen. -/
def ChoosesLocal (s : GossipService M) : Prop :=
  ∃ peers j p, s.found = some peers ∧ peers[j]? = some p ∧
    p.address = s.kad.routingTable.localInfo.address ∧ s.Chosen peers j

/-- **`publish` neither echoes nor talks to itself**, exactly: iff the address the local node
advertises is the source or the address the service is bound to, or is not chosen. -/
theorem discreet_iff {s s' : GossipService M} {src : SocketAddr} {message : Message}
    {out : List GossipSend} (h : s.publish src message = some (s', out)) :
    s.Discreet src out ↔ s.kad.routingTable.localInfo.address = src ∨
      s.kad.routingTable.localInfo.address = s.address ∨ ¬ s.ChoosesLocal := by
  obtain ⟨peers, hpeers, -, -⟩ := publish_eq_some h
  have hmem : ∀ {a}, a ∈ recipients out ↔ _ := mem_recipients hpeers h
  have hlocal : s.ChoosesLocal ↔ ∃ j p, peers[j]? = some p ∧
      p.address = s.kad.routingTable.localInfo.address ∧ s.Chosen peers j := by
    rw [ChoosesLocal, hpeers]
    simp only [Option.some.injEq, exists_and_left, exists_eq_left']
  constructor
  · intro hdiscreet
    by_contra hnot
    simp only [not_or, not_not] at hnot
    obtain ⟨hsrc, hbound, hchooses⟩ := hnot
    exact hdiscreet.advertised (hmem.mpr ⟨hlocal.mp hchooses, hsrc, hbound⟩)
  · intro hcases
    refine ⟨nodup_recipients h, ?_, fun hsrc => ?_, fun hbound => ?_, fun hself => ?_⟩
    · intro a ha
      obtain ⟨⟨j, p, hp, hpa, -⟩, -⟩ := hmem.mp ha
      exact ⟨p, mem_of_found hpeers (List.mem_of_getElem? hp), hpa⟩
    · exact (hmem.mp hsrc).2.1 rfl
    · exact (hmem.mp hbound).2.2 rfl
    · obtain ⟨hchosen, hne, hne'⟩ := hmem.mp hself
      rcases hcases with heq | heq | hnot
      · exact hne heq
      · exact hne' heq
      · exact hnot (hlocal.mpr hchosen)

/-- Bound to every interface, as one that advertises a public address is. -/
def boundService (picks : Nat → Nat) : GossipService ListedNodes :=
  new (.v4 ⟨0, 0, 0, 0⟩ 9292) someKad someConfig 0 picks

theorem publish_bound (picks : Nat → Nat) :
    (boundService picks).publish (.v4 .localhost 9393) someGossipMessage =
      some (boundService picks, [.toTransport localPeer.address someGossipMessage]) := by
  rfl

theorem boundService_discreet_iff :
    (boundService id).Discreet (.v4 .localhost 9393)
        [.toTransport localPeer.address someGossipMessage] ↔
      localPeer.address = .v4 .localhost 9393 ∨ localPeer.address = .v4 ⟨0, 0, 0, 0⟩ 9292 ∨
        ¬ (boundService id).ChoosesLocal :=
  discreet_iff (publish_bound id)

/-- The only peer of the table is the local one, under an address the service is not bound to. -/
theorem told_itself :
    ¬ ∀ (s s' : GossipService ListedNodes) (src : SocketAddr) (message : Message)
      (out : List GossipSend), s.publish src message = some (s', out) → s.Discreet src out := by
  intro hall
  exact (hall _ _ _ _ _ (publish_bound id)).advertised List.mem_cons_self

/-! ## The configured floor -/

/-- The addresses found, other than the source and the one the service is bound to. -/
def eligible (s : GossipService M) (src : SocketAddr) (peers : List PeerInfo) : Finset SocketAddr :=
  (peers.map PeerInfo.address).toFinset.filter fun a => a ≠ src ∧ a ≠ s.address

/-- The number of recipients to expect. -/
def floor (s : GossipService M) (src : SocketAddr) (peers : List PeerInfo) : Nat :=
  min s.config.min (s.eligible src peers).card

omit [LinkedHashMap PeerId PeerInfo M] in
theorem mem_eligible {s : GossipService M} {src : SocketAddr} {peers : List PeerInfo}
    {a : SocketAddr} : a ∈ s.eligible src peers ↔
      (∃ p ∈ peers, p.address = a) ∧ a ≠ src ∧ a ≠ s.address := by
  simp only [eligible, Finset.mem_filter, List.mem_toFinset, List.mem_map]

/-- When few are found, every eligible address is a recipient. -/
theorem recipients_of_few {s s' : GossipService M} {src : SocketAddr} {message : Message}
    {out : List GossipSend} {peers : List PeerInfo} (hpeers : s.found = some peers)
    (h : s.publish src message = some (s', out)) (hfew : peers.length ≤ 7) :
    (recipients out).toFinset = s.eligible src peers := by
  ext a
  have hchosen : ∀ j, s.Chosen peers j := fun j hmany => absurd hmany (Nat.not_lt.mpr hfew)
  rw [List.mem_toFinset, mem_recipients hpeers h, mem_eligible]
  apply and_congr_left'
  simp only [hchosen, and_true, List.mem_iff_getElem?]
  constructor
  · rintro ⟨j, p, hp, ha⟩
    exact ⟨p, ⟨j, hp⟩, ha⟩
  · rintro ⟨p, ⟨j, hp⟩, ha⟩
    exact ⟨j, p, hp, ha⟩

/-- When all draws are of one place, at most the peer there receives the message, if it is drawn at
all and its address passes the filter. -/
theorem recipients_of_constant {s s' : GossipService M} {src : SocketAddr} {message : Message}
    {out : List GossipSend} {peers : List PeerInfo} (hpeers : s.found = some peers) {j : Nat}
    {p : PeerInfo} (hp : peers[j]? = some p)
    (h : { s with picks := fun _ => j }.publish src message = some (s', out))
    (hmany : 7 < peers.length) {a : SocketAddr} (ha : a ∈ recipients out) :
    a = p.address ∧ 0 < s.config.infected peers.length ∧ a ≠ src ∧ a ≠ s.address := by
  obtain ⟨⟨j', p', hp', hpa, hchosen⟩, hfiltered⟩ :=
    (mem_recipients (s := { s with picks := fun _ => j }) hpeers h).mp ha
  obtain ⟨i, hi, hj'⟩ := hchosen hmany
  have hj : j < peers.length := List.getElem?_eq_some_iff.mp hp |>.1
  rw [show ({ s with picks := fun _ => j } : GossipService M).picks i % peers.length = j from
    Nat.mod_eq_of_lt hj] at hj'
  subst hj'
  rw [hp, Option.some.injEq] at hp'
  exact ⟨by rw [hp', hpa], Nat.zero_lt_of_lt hi, hfiltered⟩

/-- **The configured floor**, exactly: whatever is drawn, `publish` reaches as many recipients as
the configuration asks for and are eligible iff at most seven peers are found, or nothing is asked
for, or one recipient is, something is drawn, and every peer found is eligible. -/
theorem floor_iff {s : GossipService M} {peers : List PeerInfo} (hpeers : s.found = some peers)
    (src : SocketAddr) (message : Message) :
    (∀ picks s' out, { s with picks := picks }.publish src message = some (s', out) →
      s.floor src peers ≤ (recipients out).toFinset.card) ↔
    peers.length ≤ 7 ∨ s.floor src peers = 0 ∨
      s.floor src peers = 1 ∧ 0 < s.config.infected peers.length ∧
        ∀ p ∈ peers, p.address ≠ src ∧ p.address ≠ s.address := by
  constructor
  · intro hall
    by_contra hnot
    simp only [not_or, not_and, Nat.not_le] at hnot
    obtain ⟨hmany, hpos, hnot⟩ := hnot
    -- all draws of one place: its peer is the only recipient, and there must be one
    have hconstant : ∀ {j : Nat} {p : PeerInfo}, peers[j]? = some p → s.floor src peers = 1 ∧
        0 < s.config.infected peers.length ∧ p.address ≠ src ∧ p.address ≠ s.address := by
      intro j p hp
      obtain ⟨s', out, hout⟩ := publish_isSome (s := { s with picks := fun _ => j }) hpeers src
        message
      have hle := hall _ _ _ hout
      have hone : (recipients out).toFinset ⊆ {p.address} := by
        intro a ha
        rw [Finset.mem_singleton]
        exact (recipients_of_constant hpeers hp hout hmany (List.mem_toFinset.mp ha)).1
      have hcard : (recipients out).toFinset.card ≤ 1 := Finset.card_le_card hone
      obtain ⟨a, ha⟩ := Finset.card_pos.mp ((Nat.pos_of_ne_zero hpos).trans_le hle)
      obtain ⟨rfl, hdrawn, hfiltered⟩ :=
        recipients_of_constant hpeers hp hout hmany (List.mem_toFinset.mp ha)
      exact ⟨by omega, hdrawn, hfiltered⟩
    obtain ⟨hfloor, hdrawn, -⟩ := hconstant (List.getElem?_eq_getElem (Nat.zero_lt_of_lt hmany))
    refine hnot hfloor hdrawn fun p hp => ?_
    obtain ⟨j, hj⟩ := List.mem_iff_getElem?.mp hp
    exact (hconstant hj).2.2
  · intro hcases picks s' out hout
    rcases Nat.lt_or_ge 7 peers.length with hmany | hfew
    · rcases hcases with hfew | hzero | ⟨hone, hdrawn, hall⟩
      · exact absurd hmany (Nat.not_lt.mpr hfew)
      · rw [hzero]
        exact Nat.zero_le _
      · -- the first draw is a recipient
        rw [hone, Nat.succ_le_iff, Finset.card_pos]
        have hlt : picks 0 % peers.length < peers.length :=
          Nat.mod_lt _ (Nat.zero_lt_of_lt hmany)
        have hp := List.getElem?_eq_getElem hlt
        refine ⟨(peers[picks 0 % peers.length]).address, ?_⟩
        rw [List.mem_toFinset, mem_recipients (s := { s with picks := picks }) hpeers hout]
        exact ⟨⟨_, _, hp, rfl, fun _ => ⟨0, hdrawn, rfl⟩⟩, hall _ (List.getElem_mem hlt)⟩
    · rw [recipients_of_few (s := { s with picks := picks }) hpeers hout hfew]
      exact Nat.min_le_right _ _

/-- Peers on ports of their own. -/
def neighbour (i : Nat) : PeerInfo := { peerAt 128 i with address := .v4 .localhost (.ofNat i) }

/-- The local peer, and eight neighbours in one bucket. -/
def crowd : RoutingTable ListedNodes :=
  (List.range 8).foldl (fun t i => t.put (neighbour i) 0 ['1']) (RoutingTable.new localPeer 0)

/-- It asks for three recipients, and draws from half as many as are found. -/
def crowdService (picks : Nat → Nat) : GossipService ListedNodes :=
  new localPeer.address { someKad with routingTable := crowd } someConfig 0 picks

/-- Everybody is found. -/
def everybody : List PeerInfo := (List.range 8).map neighbour ++ [localPeer]

theorem found_crowd (picks : Nat → Nat) : (crowdService picks).found = some everybody := by
  rfl

theorem crowd_floor_iff :
    (∀ picks s' out, (crowdService picks).publish (.v4 .localhost 9393) someGossipMessage =
        some (s', out) →
      (crowdService id).floor (.v4 .localhost 9393) everybody ≤
        (recipients out).toFinset.card) ↔
    everybody.length ≤ 7 ∨ (crowdService id).floor (.v4 .localhost 9393) everybody = 0 ∨
      (crowdService id).floor (.v4 .localhost 9393) everybody = 1 ∧
        0 < someConfig.infected everybody.length ∧
        ∀ p ∈ everybody, p.address ≠ .v4 .localhost 9393 ∧ p.address ≠ localPeer.address :=
  floor_iff (s := crowdService id) (found_crowd id) (.v4 .localhost 9393) someGossipMessage

/-- Four draws, all of one neighbour. -/
theorem one_recipient :
    ¬ ∀ (s s' : GossipService ListedNodes) (src : SocketAddr) (message : Message)
      (out : List GossipSend) (peers : List PeerInfo), s.found = some peers →
      s.publish src message = some (s', out) →
      s.floor src peers ≤ (recipients out).toFinset.card := by
  intro hall
  obtain ⟨s', out, hout⟩ := publish_isSome (found_crowd fun _ => 1) (.v4 .localhost 9393)
    someGossipMessage
  have hone : (recipients out).toFinset ⊆ {(neighbour 1).address} := by
    intro a ha
    rw [Finset.mem_singleton]
    exact (recipients_of_constant (s := crowdService id) (found_crowd id) (j := 1) rfl hout
      (by decide) (List.mem_toFinset.mp ha)).1
  have hle := (hall _ _ _ _ _ _ (found_crowd fun _ => 1) hout).trans (Finset.card_le_card hone)
  have hfloor : (crowdService fun _ => 1).floor (.v4 .localhost 9393) everybody = 3 := by decide
  rw [hfloor, Finset.card_singleton] at hle
  exact absurd hle (by decide)

end GossipService

end Udp2p
