import Udp2p.Gossip.Dissemination

/-!
# What does the gossip service send?

It relays: what it sends to the transport is a message it has just been given or one it has cached,
unaltered, and what it caches it has been given. It sends to peers of the routing table, which it
leaves as it is.

* `recv_relays`, `gossip_relays` — a message received, and a heartbeat.
-/

namespace Udp2p

/-- No duration computed by a heartbeat overflows. -/
structure GossipConfig.Fits (config : GossipConfig) : Prop where
  alive : (durationMul config.interval config.historyGossip).isSome
  kept : (durationMul config.interval config.historyLen).isSome
  check : (durationMul config.interval config.check).isSome

namespace GossipService

variable {M : Type} [LinkedHashMap PeerId PeerInfo M] {W : ByteRep GossipMessage}

/-- The messages sent to the transport satisfy `P`, and go to addresses of peers of the table. -/
def Relays (s : GossipService M) (P : Message → Prop) (out : List GossipSend) : Prop :=
  ∀ dst message, .toTransport dst message ∈ out →
    P message ∧ ∃ p ∈ s.kad.routingTable.getAllPeers, p.address = dst

variable {P : Message → Prop}

theorem Relays.nil (s : GossipService M) : s.Relays P [] := fun _ _ h => nomatch h

theorem Relays.append {s : GossipService M} {out out' : List GossipSend} (h : s.Relays P out)
    (h' : s.Relays P out') : s.Relays P (out ++ out') := fun dst message hmem =>
  (List.mem_append.mp hmem).elim (h dst message) (h' dst message)

theorem Relays.congr {s s' : GossipService M} (hkad : s'.kad = s.kad) {out : List GossipSend}
    (h : s'.Relays P out) : s.Relays P out := by
  intro dst message hmem
  rw [← hkad]
  exact h dst message hmem

theorem publish_relays {s s' : GossipService M} {src : SocketAddr} {message : Message}
    {out : List GossipSend} (h : s.publish src message = some (s', out)) (hP : P message) :
    s'.kad = s.kad ∧ s.Relays P out := by
  obtain ⟨peers, hpeers, -, hout⟩ := publish_eq_some h
  constructor
  · obtain ⟨peers', -, hsame⟩ := Option.bind_eq_some_iff.mp h
    cases hsame
    rfl
  · intro dst m hmem
    rw [hout] at hmem
    obtain ⟨a, ha, heq⟩ := List.mem_map.mp hmem
    cases heq
    obtain ⟨⟨j, p, hp, haddr, -⟩, -⟩ := (mem_recipients hpeers h).mp ha
    exact ⟨hP, p, mem_of_found hpeers (List.mem_of_getElem? hp), haddr⟩

/-- **A message received** is relayed and cached, or neither. -/
theorem recv_relays {s s' : GossipService M} {src : SocketAddr} {msg : Message} {time now : Nat}
    {out : List GossipSend} (h : s.recv W src msg time now = some (s', out)) :
    s'.kad = s.kad ∧ s.Relays (· = msg) out ∧
      ∀ id m stamp, s'.cache.lookup id = some (m, stamp) →
        s.cache.lookup id = some (m, stamp) ∨ m = msg := by
  have hcache : ∀ id m stamp, s'.cache.lookup id = some (m, stamp) →
      s.cache.lookup id = some (m, stamp) ∨ m = msg := by
    intro id m stamp hlookup
    obtain ⟨-, ⟨rfl, -, -⟩ | ⟨message, -, hnew, hcache, -⟩⟩ := recv_cases h
    · exact Or.inl hlookup
    · rw [hcache] at hlookup
      by_cases hid : id = message.id
      · rw [hid, AList.lookup_orInsert_self, hnew] at hlookup
        cases hlookup
        exact Or.inr rfl
      · rw [AList.lookup_orInsert_ne _ _ hid] at hlookup
        exact Or.inl hlookup
  obtain ⟨⟨s₁, sends, message?⟩, hhandle, heq⟩ := Option.bind_eq_some_iff.mp h
  cases heq
  -- what is handed to the application is sent nowhere
  have htx : s.Relays (· = msg) ((message?.map GossipSend.tx).toList) := by
    intro dst m hmem
    cases message? with
    | none => cases hmem
    | some message => cases List.mem_singleton.mp hmem
  unfold handleMessage at hhandle
  split at hhandle
  · next message hdecode =>
    split at hhandle
    · split at hhandle
      · obtain ⟨⟨s₂, sends⟩, hpublish, heq⟩ := Option.bind_eq_some_iff.mp hhandle
        cases heq
        obtain ⟨hkad, hrelays⟩ := publish_relays (P := (· = msg)) hpublish rfl
        refine ⟨hkad, ?_, hcache⟩
        apply Relays.append ?_ htx
        intro dst m hmem
        rcases List.mem_cons.mp hmem with heq | hmem
        · cases heq
        · exact hrelays dst m hmem
      · cases hhandle
        exact ⟨rfl, htx, hcache⟩
    · cases hhandle
      exact ⟨rfl, htx, hcache⟩
  · cases hhandle
    exact ⟨rfl, htx, hcache⟩

/-- One entry of the clone. -/
theorem gossipEntry_relays {now : Nat} {s s' : GossipService M}
    {e : Σ _ : InnerKey, Message × Nat} {out : List GossipSend}
    (h : gossipEntry W now s e = some (s', out)) (hP : P e.2.1) :
    s'.kad = s.kad ∧ s.Relays P out := by
  obtain ⟨alive, -, h⟩ := Option.bind_eq_some_iff.mp h
  obtain ⟨⟨s₁, out₁⟩, hpublish, h⟩ := Option.bind_eq_some_iff.mp h
  obtain ⟨kept, -, h⟩ := Option.bind_eq_some_iff.mp h
  have hrelays : s₁.kad = s.kad ∧ s.Relays P out₁ := by
    split at hpublish
    · split at hpublish
      · exact publish_relays hpublish hP
      · cases hpublish
        exact ⟨rfl, .nil s⟩
    · cases hpublish
      exact ⟨rfl, .nil s⟩
  split at h
  · cases h
    exact hrelays
  · cases h
    exact hrelays

theorem gossipLoop_relays {now : Nat} {s s' : GossipService M}
    {l : List (Σ _ : InnerKey, Message × Nat)} {out : List GossipSend}
    (h : (gossipLoop W now).run s l = some (s', out)) (hP : ∀ e ∈ l, P e.2.1) :
    s'.kad = s.kad ∧ s.Relays P out := by
  induction l generalizing s out with
  | nil =>
    cases h
    exact ⟨rfl, .nil _⟩
  | cons e l ih =>
    obtain ⟨s₁, out₁, out₂, hstep, hrun, rfl⟩ := (gossipLoop W now).run_cons_eq_some.mp h
    obtain ⟨hkad, hrelays⟩ := gossipEntry_relays hstep (hP e List.mem_cons_self)
    obtain ⟨hkad', hrelays'⟩ := ih hrun fun e' he' => hP e' (List.mem_cons_of_mem e he')
    exact ⟨hkad'.trans hkad, hrelays.append (hrelays'.congr hkad)⟩

/-- **A call of `gossip`** does nothing before the next heartbeat is due, and goes through the cache
then. -/
theorem gossip_cases {s s' : GossipService M} {now beat : Nat} {out : List GossipSend}
    (h : s.gossip W now beat = some (s', out)) :
    beat - s.lastHeartbeat ≤ s.config.interval ∧ s' = s ∧ out = [] ∨
    s.config.interval < beat - s.lastHeartbeat ∧
      (gossipLoop W now).run { s with lastHeartbeat := beat } s.cache.entries = some (s', out) := by
  unfold gossip heartbeat at h
  by_cases hdue : s.config.interval < beat - s.lastHeartbeat
  · simp only [if_pos hdue] at h
    obtain ⟨r, hrun, h⟩ := Option.bind_eq_some_iff.mp h
    obtain ⟨next, -, heq⟩ := Option.bind_eq_some_iff.mp h
    cases heq
    exact Or.inr ⟨hdue, hrun⟩
  · simp only [if_neg hdue] at h
    cases h
    exact Or.inl ⟨Nat.le_of_not_lt hdue, rfl, rfl⟩

/-- **A heartbeat** relays messages of the cache, and caches none. -/
theorem gossip_relays {s s' : GossipService M} {now beat : Nat} {out : List GossipSend}
    (h : s.gossip W now beat = some (s', out)) :
    s'.kad = s.kad ∧ s.Relays (fun m => ∃ id stamp, s.cache.lookup id = some (m, stamp)) out ∧
      ∀ id m stamp, s'.cache.lookup id = some (m, stamp) →
        s.cache.lookup id = some (m, stamp) := by
  rcases gossip_cases h with ⟨-, rfl, rfl⟩ | ⟨-, hrun⟩
  · exact ⟨rfl, .nil _, fun id m stamp hlookup => hlookup⟩
  · obtain ⟨hkad, hrelays⟩ := gossipLoop_relays
      (P := fun m => ∃ id stamp, s.cache.lookup id = some (m, stamp)) hrun
      fun e he => ⟨e.1, e.2.2, AList.lookup_eq_some_iff.mpr he⟩
    refine ⟨hkad, hrelays.congr rfl, fun id m stamp hlookup => ?_⟩
    rw [(gossipLoop_frame hrun).2.2 id] at hlookup
    split at hlookup
    · cases hlookup
    · exact hlookup

/-! ## When it returns -/

/-- A message received is handled if the closest peers can be looked up. -/
theorem recv_returns {s : GossipService M} (hfound : s.found.isSome) (src : SocketAddr)
    (msg : Message) (time now : Nat) : (s.recv W src msg time now).isSome := by
  suffices h : (s.handleMessage W src msg time now).isSome by
    obtain ⟨r, hr⟩ := Option.isSome_iff_exists.mp h
    simp [recv, hr]
  unfold handleMessage
  cases W.fromBytes msg.msg with
  | none => rfl
  | some message =>
    cases hlookup : s.cache.lookup message.id with
    | some e => simp [hlookup]
    | none =>
      simp only [hlookup]
      split
      · obtain ⟨peers, hpeers⟩ := Option.isSome_iff_exists.mp hfound
        obtain ⟨s', out, hpublish⟩ := publish_isSome hpeers src msg
        simp [hpublish]
      · rfl

theorem gossipEntry_returns {s : GossipService M} (hfound : s.found.isSome)
    (hconfig : s.config.Fits) (now : Nat) (e : Σ _ : InnerKey, Message × Nat) :
    (gossipEntry W now s e).isSome := by
  obtain ⟨alive, halive⟩ := Option.isSome_iff_exists.mp hconfig.alive
  obtain ⟨kept, hkept⟩ := Option.isSome_iff_exists.mp hconfig.kept
  -- what is left to do once the message is published, or not
  have hrest : ∀ s' : GossipService M, s'.config = s.config → ∀ out : List GossipSend,
      ((durationMul s'.config.interval s'.config.historyLen).bind fun kept =>
        if kept < now - e.2.2 then some ({ s' with cache := s'.cache.erase e.1 }, out)
        else some (s', out)).isSome := by
    intro s' hsame out
    rw [hsame, hkept]
    simp only [Option.bind_some]
    split <;> rfl
  unfold gossipEntry
  simp only [halive, Option.bind_eq_bind, Option.bind_some]
  split
  · cases W.fromBytes e.2.1.msg with
    | none => exact hrest s rfl []
    | some gossipMessage =>
      obtain ⟨peers, hpeers⟩ := Option.isSome_iff_exists.mp hfound
      obtain ⟨s', out, hpublish⟩ := publish_isSome hpeers gossipMessage.sender e.2.1
      simp only [hpublish, Option.bind_some]
      exact hrest s' (publish_frame hpublish).1.config out
  · exact hrest s rfl []

/-- **A call of `gossip`** returns if the closest peers can be looked up and no duration
overflows. -/
theorem gossip_returns {s : GossipService M} (hfound : s.found.isSome) (hconfig : s.config.Fits)
    (now beat : Nat) : (s.gossip W now beat).isSome := by
  have hloop : ∀ (l : List (Σ _ : InnerKey, Message × Nat)) (s : GossipService M),
      s.found.isSome → s.config.Fits → ((gossipLoop W now).run s l).isSome := by
    intro l
    induction l with
    | nil => exact fun s _ _ => rfl
    | cons e l ih =>
      intro s hfound hconfig
      obtain ⟨⟨s', out⟩, hstep⟩ :=
        Option.isSome_iff_exists.mp (gossipEntry_returns (W := W) hfound hconfig now e)
      have hkad := (gossipEntry_relays (P := fun _ => True) hstep trivial).1
      have hsame := (gossipEntry_frame hstep).1
      have hfound' : s'.found.isSome := by
        rw [found, hkad]
        exact hfound
      obtain ⟨⟨t, outs⟩, hrun⟩ :=
        Option.isSome_iff_exists.mp (ih s' hfound' (hsame.config ▸ hconfig))
      exact Option.isSome_iff_exists.mpr ⟨_, (gossipLoop W now).run_cons_eq_some.mpr
        ⟨s', out, outs, hstep, hrun, rfl⟩⟩
  unfold gossip heartbeat
  by_cases hdue : s.config.interval < beat - s.lastHeartbeat
  · simp only [if_pos hdue]
    obtain ⟨r, hrun⟩ := Option.isSome_iff_exists.mp
      (hloop s.cache.entries { s with lastHeartbeat := beat } hfound hconfig)
    obtain ⟨next, hnext⟩ := Option.isSome_iff_exists.mp hconfig.check
    simp only [hrun, hnext]
    rfl
  · simp only [if_neg hdue]
    rfl

end GossipService

end Udp2p
