import Udp2p.Discovery.Kademlia

/-!
# The gossip service

Messages that come in are handed to the application, published to peers and cached; a heartbeat
publishes the cached messages again while they are young and drops them when they are old.

Durations and clock readings are in nanoseconds; `none` is a panic: a duration that overflows, or a
routing table that cannot look up the closest peers. Every reading is an argument, the peers drawn
at random come from a stream in the state, and how many are drawn among so many, a product with a
floating point number in the code, is a function in the configuration.

* `recv_cases` — which messages are handed over, and that these are cached.
* `gossip_frame` — a heartbeat drops nothing but old entries.
-/

namespace Udp2p

structure GossipMessage where
  id : InnerKey
  data : MessageData
  sender : SocketAddr
  deriving DecidableEq

structure GossipConfig where
  historyLen : Nat
  historyGossip : Nat
  minGossip : Nat
  /-- `(n as f64 * factor) as usize`. -/
  infected : Nat → Nat
  interval : Nat
  check : Nat

/-- The minimum number of peers to gossip to; no function calls it. -/
def GossipConfig.min (config : GossipConfig) : Nat := config.minGossip

/-- `Duration * u32`, with the factor cut to 32 bits; past `u64::MAX` seconds the product panics. -/
def durationMul (interval factor : Nat) : Option Nat :=
  if interval * (factor % 2 ^ 32) < 2 ^ 64 * 10 ^ 9 then some (interval * (factor % 2 ^ 32))
  else none

structure GossipService (M : Type) where
  address : SocketAddr
  kad : Kademlia M
  cache : HashMap InnerKey (Message × Nat)
  config : GossipConfig
  lastHeartbeat : Nat
  picks : Nat → Nat

/-- What a service puts on its channels: messages for the transport, and messages for the
application with the time they are handed over. -/
inductive GossipSend where
  | toTransport (dst : SocketAddr) (message : Message)
  | toApp (time : Nat) (message : GossipMessage)
  | tx (message : GossipMessage)
  deriving DecidableEq

namespace GossipService

variable {M : Type} [LinkedHashMap PeerId PeerInfo M] (W : ByteRep GossipMessage)

def new (address : SocketAddr) (kad : Kademlia M) (config : GossipConfig) (lastHeartbeat : Nat)
    (picks : Nat → Nat) : GossipService M where
  address := address
  kad := kad
  cache := ∅
  config := config
  lastHeartbeat := lastHeartbeat
  picks := picks

/-- `rand::thread_rng().gen_range(0..peers.len())`, so many times. -/
def drawAddresses (s : GossipService M) (peers : List PeerInfo) (n : Nat) : List SocketAddr :=
  (List.range n).filterMap fun i => (peers[s.picks i % peers.length]?).map PeerInfo.address

/-- The addresses a message from `src` is published to. -/
def sample (s : GossipService M) (src : SocketAddr) (peers : List PeerInfo) : HashSet SocketAddr :=
  if 7 < peers.length then
    ((s.drawAddresses peers (s.config.infected peers.length)).filter fun address =>
      address ≠ src ∧ address ≠ s.address).foldl HashSet.insert ∅
  else
    ((peers.map PeerInfo.address).filter fun address => address ≠ s.address).foldl HashSet.insert ∅

def publish (s : GossipService M) (src : SocketAddr) (message : Message) :
    Option (GossipService M × List GossipSend) := do
  let peers ← s.kad.routingTable.getClosestPeers s.kad.routingTable.localInfo 30
  let drawn := if 7 < peers.length then s.config.infected peers.length else 0
  let gossipTo := (s.sample src peers).toList.filter fun peer => peer ≠ src
  return ({ s with picks := fun n => s.picks (n + drawn) },
    gossipTo.map fun peer => .toTransport peer message)

/-- `time` is when the message is handed over, `now` the clock reading it is cached with. -/
def handleMessage (s : GossipService M) (src : SocketAddr) (msg : Message) (time now : Nat) :
    Option (GossipService M × List GossipSend × Option GossipMessage) :=
  match W.fromBytes msg.msg with
  | some message =>
    match s.cache.lookup message.id with
    | none =>
      if src ≠ s.address then do
        let (s, out) ← s.publish src msg
        let s := { s with cache := s.cache.orInsert message.id (msg, now) }
        return (s, .toApp time message :: out, some message)
      else
        some ({ s with cache := s.cache.orInsert message.id (msg, now) }, [], none)
    | some _ => some (s, [], none)
  | none => some (s, [], none)

def recv (s : GossipService M) (src : SocketAddr) (msg : Message) (time now : Nat) :
    Option (GossipService M × List GossipSend) := do
  let (s, out, message?) ← s.handleMessage W src msg time now
  return (s, out ++ (message?.map GossipSend.tx).toList)

def heartbeat (s : GossipService M) (now : Nat) : GossipService M × Bool :=
  if s.config.interval < now - s.lastHeartbeat then ({ s with lastHeartbeat := now }, true)
  else (s, false)

/-- The loop body for one entry of the cloned cache. -/
def gossipEntry (now : Nat) (s : GossipService M) (e : Σ _ : InnerKey, Message × Nat) :
    Option (GossipService M × List GossipSend) := do
  let alive ← durationMul s.config.interval s.config.historyGossip
  let (s, out) ← (if now - e.2.2 < alive then
      match W.fromBytes e.2.1.msg with
      | some gossipMessage => s.publish gossipMessage.sender e.2.1
      | none => some (s, [])
    else some (s, []))
  let kept ← durationMul s.config.interval s.config.historyLen
  if kept < now - e.2.2 then return ({ s with cache := s.cache.erase e.1 }, out)
  else return (s, out)

def gossipLoop (now : Nat) : Machine (GossipService M) (Σ _ : InnerKey, Message × Nat) GossipSend :=
  ⟨gossipEntry W now⟩

/-- `now` is the first clock reading, `beat` the one of `heartbeat`. -/
def gossip (s : GossipService M) (now beat : Nat) : Option (GossipService M × List GossipSend) :=
  match s.heartbeat beat with
  | (s', true) => do
    let r ← (gossipLoop W now).run s' s.cache.entries
    -- the time of the next ping is computed, and not used
    let _ ← durationMul s.config.interval s.config.check
    return r
  | (s', false) => some (s', [])

/-- What happens to a service: its Kademlia instance handles a message, a message comes in, or
`gossip` is called. -/
inductive Event where
  | kad (message : KadMessage)
  | recv (src : SocketAddr) (msg : Message) (time now : Nat)
  | gossip (now beat : Nat)
  deriving DecidableEq

/-- The times of an event, in their order. -/
def Event.times : Event → List Nat
  | .kad _ => []
  | .recv _ _ time now => [time, now]
  | .gossip now beat => [now, beat]

def machine (K : KadWire) (depth : Nat) : Machine (GossipService M) Event GossipSend where
  step s
    | .kad message => (s.kad.handleMessage K depth message).map fun r =>
      ({ s with kad := r.1 }, r.2.map fun o => .toTransport o.dst o.message)
    | .recv src msg time now => s.recv W src msg time now
    | .gossip now beat => s.gossip W now beat

/-! ## What the operations do -/

variable {W}

/-- Messages for the transport only. -/
def Published (out : List GossipSend) : Prop :=
  ∀ o ∈ out, ∃ dst message, o = .toTransport dst message

theorem Published.nil : Published [] := fun _ ho => nomatch ho

theorem Published.append {out out' : List GossipSend} (h : Published out) (h' : Published out') :
    Published (out ++ out') := fun o ho => (List.mem_append.mp ho).elim (h o) (h' o)

/-- What no operation changes. -/
structure SameService (s s' : GossipService M) : Prop where
  address : s'.address = s.address
  config : s'.config = s.config

omit [LinkedHashMap PeerId PeerInfo M] in
theorem SameService.refl (s : GossipService M) : SameService s s := ⟨rfl, rfl⟩

omit [LinkedHashMap PeerId PeerInfo M] in
theorem SameService.trans {s s' s'' : GossipService M} (h : SameService s s')
    (h' : SameService s' s'') : SameService s s'' :=
  ⟨h'.address.trans h.address, h'.config.trans h.config⟩

theorem publish_frame {s s' : GossipService M} {src : SocketAddr} {message : Message}
    {out : List GossipSend} (h : s.publish src message = some (s', out)) :
    SameService s s' ∧ s'.cache = s.cache ∧ Published out := by
  obtain ⟨peers, -, heq⟩ := Option.bind_eq_some_iff.mp h
  cases heq
  refine ⟨⟨rfl, rfl⟩, rfl, fun o ho => ?_⟩
  obtain ⟨peer, -, rfl⟩ := List.mem_map.mp ho
  exact ⟨peer, message, rfl⟩

/-- **A message received**: one that does not decode, or whose id is cached, does nothing; any other
is cached and, unless it comes from the node's own address, handed over and published. -/
theorem recv_cases {s s' : GossipService M} {src : SocketAddr} {msg : Message} {time now : Nat}
    {out : List GossipSend} (h : s.recv W src msg time now = some (s', out)) :
    SameService s s' ∧
    (s' = s ∧ out = [] ∧ (∀ message, W.fromBytes msg.msg = some message →
        (s.cache.lookup message.id).isSome) ∨
      ∃ message, W.fromBytes msg.msg = some message ∧ s.cache.lookup message.id = none ∧
        s'.cache = s.cache.orInsert message.id (msg, now) ∧
        (src = s.address ∧ out = [] ∨ src ≠ s.address ∧ ∃ sends, Published sends ∧
          out = .toApp time message :: sends ++ [.tx message])) := by
  obtain ⟨⟨s₁, sends, message?⟩, hhandle, heq⟩ := Option.bind_eq_some_iff.mp h
  cases heq
  unfold handleMessage at hhandle
  split at hhandle
  · next message hdecode =>
    split at hhandle
    · next hlookup =>
      split at hhandle
      · next hsrc =>
        obtain ⟨⟨s₂, sends⟩, hpublish, heq⟩ := Option.bind_eq_some_iff.mp hhandle
        cases heq
        obtain ⟨hsame, hcache, hpublished⟩ := publish_frame hpublish
        refine ⟨⟨hsame.address, hsame.config⟩, Or.inr ⟨message, hdecode, hlookup, ?_,
          Or.inr ⟨hsrc, sends, hpublished, rfl⟩⟩⟩
        simp only [hcache]
      · next hsrc =>
        cases hhandle
        exact ⟨⟨rfl, rfl⟩, Or.inr ⟨message, hdecode, hlookup, rfl,
          Or.inl ⟨not_not.mp hsrc, rfl⟩⟩⟩
    · next e hlookup =>
      cases hhandle
      refine ⟨.refl _, Or.inl ⟨rfl, rfl, fun message' h' => ?_⟩⟩
      rw [hdecode, Option.some.injEq] at h'
      rw [← h', hlookup]
      rfl
  · next hdecode =>
    cases hhandle
    refine ⟨.refl _, Or.inl ⟨rfl, rfl, fun message' h' => ?_⟩⟩
    rw [hdecode] at h'
    cases h'

theorem durationMul_eq_some {interval factor product : Nat}
    (h : durationMul interval factor = some product) : product = interval * (factor % 2 ^ 32) := by
  unfold durationMul at h
  split at h
  · exact (Option.some.inj h).symm
  · cases h

/-- An entry is past the history that is kept. -/
def Old (config : GossipConfig) (now stamp : Nat) : Prop :=
  config.interval * (config.historyLen % 2 ^ 32) < now - stamp

instance (config : GossipConfig) (now stamp : Nat) : Decidable (Old config now stamp) :=
  inferInstanceAs (Decidable (_ < _))

/-- One entry of the clone: published while it is young, dropped when it is old. -/
theorem gossipEntry_frame {now : Nat} {s s' : GossipService M} {e : Σ _ : InnerKey, Message × Nat}
    {out : List GossipSend} (h : gossipEntry W now s e = some (s', out)) :
    SameService s s' ∧ Published out ∧
      s'.cache = if Old s.config now e.2.2 then s.cache.erase e.1 else s.cache := by
  obtain ⟨alive, -, h⟩ := Option.bind_eq_some_iff.mp h
  obtain ⟨⟨s₁, out₁⟩, hpublish, h⟩ := Option.bind_eq_some_iff.mp h
  obtain ⟨kept, hkept, h⟩ := Option.bind_eq_some_iff.mp h
  have hframe : SameService s s₁ ∧ s₁.cache = s.cache ∧ Published out₁ := by
    split at hpublish
    · split at hpublish
      · exact publish_frame hpublish
      · cases hpublish
        exact ⟨.refl _, rfl, .nil⟩
    · cases hpublish
      exact ⟨.refl _, rfl, .nil⟩
  obtain ⟨hsame, hcache, hpublished⟩ := hframe
  have hold : kept < now - e.2.2 ↔ Old s.config now e.2.2 := by
    rw [durationMul_eq_some hkept, hsame.config]
    rfl
  split at h
  · next hlt =>
    cases h
    refine ⟨⟨hsame.address, hsame.config⟩, hpublished, ?_⟩
    rw [if_pos (hold.mp hlt), hcache]
  · next hle =>
    cases h
    refine ⟨hsame, hpublished, ?_⟩
    rw [if_neg fun hlt => hle (hold.mpr hlt), hcache]

/-- **The loop** drops the ids of the old entries it goes through. -/
theorem gossipLoop_frame {now : Nat} {s s' : GossipService M}
    {l : List (Σ _ : InnerKey, Message × Nat)} {out : List GossipSend}
    (h : (gossipLoop W now).run s l = some (s', out)) :
    SameService s s' ∧ Published out ∧ ∀ id, s'.cache.lookup id =
      if ∃ e ∈ l, e.1 = id ∧ Old s.config now e.2.2 then none else s.cache.lookup id := by
  induction l generalizing s out with
  | nil =>
    cases h
    exact ⟨.refl _, .nil, fun id => by simp⟩
  | cons e l ih =>
    obtain ⟨s₁, out₁, out₂, hstep, hrun, rfl⟩ := (gossipLoop W now).run_cons_eq_some.mp h
    obtain ⟨hsame, hpublished, hcache⟩ := gossipEntry_frame hstep
    obtain ⟨hsame', hpublished', hlookup⟩ := ih hrun
    refine ⟨hsame.trans hsame', hpublished.append hpublished', fun id => ?_⟩
    rw [hlookup, hsame.config]
    simp only [List.mem_cons, exists_eq_or_imp, hcache]
    by_cases hrest : ∃ e ∈ l, e.1 = id ∧ Old s.config now e.2.2
    · rw [if_pos hrest, if_pos (Or.inr hrest)]
    · rw [if_neg hrest]
      by_cases hold : Old s.config now e.2.2
      · rw [if_pos hold]
        by_cases hid : e.1 = id
        · rw [if_pos (Or.inl ⟨hid, hold⟩), ← hid, AList.lookup_erase]
        · rw [if_neg (by simp [hid, hrest]), AList.lookup_erase_ne fun heq => hid heq.symm]
      · rw [if_neg hold, if_neg (by simp [hold, hrest])]

/-- **`gossip`** drops nothing but old entries, and hands nothing over. -/
theorem gossip_frame {s s' : GossipService M} {now beat : Nat} {out : List GossipSend}
    (h : s.gossip W now beat = some (s', out)) : SameService s s' ∧ Published out ∧
      ∀ id, s'.cache.lookup id = s.cache.lookup id ∨
        ∃ msg stamp, s.cache.lookup id = some (msg, stamp) ∧ Old s.config now stamp := by
  unfold gossip at h
  split at h
  · next s₁ hbeat =>
    have hs₁ : s₁ = { s with lastHeartbeat := beat } := by
      unfold heartbeat at hbeat
      split at hbeat
      · exact (congrArg Prod.fst hbeat).symm
      · cases hbeat
    obtain ⟨⟨s₂, out₂⟩, hrun, h⟩ := Option.bind_eq_some_iff.mp h
    obtain ⟨next, -, heq⟩ := Option.bind_eq_some_iff.mp h
    cases heq
    obtain ⟨hsame, hpublished, hlookup⟩ := gossipLoop_frame hrun
    rw [hs₁] at hsame hlookup
    refine ⟨⟨hsame.address, hsame.config⟩, hpublished, fun id => ?_⟩
    by_cases hold : ∃ e ∈ s.cache.entries, e.1 = id ∧ Old s.config now e.2.2
    · obtain ⟨⟨k, msg, stamp⟩, he, rfl, hold⟩ := hold
      exact Or.inr ⟨msg, stamp, AList.lookup_eq_some_iff.mpr he, hold⟩
    · exact Or.inl ((hlookup id).trans (if_neg hold))
  · next s₁ hbeat =>
    have hs₁ : s₁ = s := by
      unfold heartbeat at hbeat
      split at hbeat
      · cases hbeat
      · exact (congrArg Prod.fst hbeat).symm
    cases h
    exact ⟨hs₁ ▸ .refl _, .nil, fun id => Or.inl (by rw [hs₁])⟩

/-- **A discovery message** does not touch the cache. -/
theorem kad_frame {K : KadWire} {depth : Nat} {s s' : GossipService M} {message : KadMessage}
    {out : List GossipSend} (h : (machine W K depth).step s (.kad message) = some (s', out)) :
    SameService s s' ∧ s'.cache = s.cache ∧ Published out := by
  obtain ⟨r, -, heq⟩ := Option.map_eq_some_iff.mp h
  cases heq
  refine ⟨⟨rfl, rfl⟩, rfl, fun o ho => ?_⟩
  obtain ⟨o', -, rfl⟩ := List.mem_map.mp ho
  exact ⟨o'.dst, o'.message, rfl⟩

end GossipService

end Udp2p
