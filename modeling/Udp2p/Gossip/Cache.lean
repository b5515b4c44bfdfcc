import Udp2p.Gossip.Load

/-!
# What does the cache hold?

Nothing but messages that came in, under their ids, each with the time it was cached. Heartbeats
drop what is old then, and what comes in later is younger still: so after a heartbeat the cache
holds nothing that is older than messages are kept, counted back from there.

* `Recent.step`, `recent_of_run` — younger entries only, from a heartbeat on.
* `cache_holds_recent` — every run.
-/

namespace Udp2p

namespace GossipService

open RoutingTable (ListedNodes localPeer)

variable {M : Type} [LinkedHashMap PeerId PeerInfo M] {W : ByteRep GossipMessage} {K : KadWire}

/-- Every entry came in, when its stamp tells. -/
def CameIn (W : ByteRep GossipMessage) (s : GossipService M) (events : List Event) : Prop :=
  ∀ id msg stamp, s.cache.lookup id = some (msg, stamp) →
    carries W id msg = true ∧ ∃ src time, .recv src msg time stamp ∈ events

/-- No entry is older than messages are kept, at the reading `now`. -/
def Recent (s : GossipService M) (now : Nat) : Prop :=
  ∀ id msg stamp, s.cache.lookup id = some (msg, stamp) → now ≤ stamp + s.config.kept

theorem CameIn.step {depth : Nat} {s s' : GossipService M} {events : List Event}
    (h : s.CameIn W events) {e : Event} {out : List GossipSend}
    (hstep : (machine W K depth).step s e = some (s', out)) : s'.CameIn W (events ++ [e]) := by
  intro id msg stamp hentry
  have hold : s.cache.lookup id = some (msg, stamp) →
      carries W id msg = true ∧ ∃ src time, .recv src msg time stamp ∈ events ++ [e] := by
    intro hentry
    obtain ⟨hcarries, src, time, hmem⟩ := h id msg stamp hentry
    exact ⟨hcarries, src, time, List.mem_append_left _ hmem⟩
  cases e with
  | kad message =>
    rw [(kad_frame hstep).2.1] at hentry
    exact hold hentry
  | recv src msg' time now =>
    rcases (recv_copies hstep id src).2 with ⟨hsame, -⟩ | ⟨-, hnew, hcarries, -⟩
    · rw [hsame] at hentry
      exact hold hentry
    · rw [hnew] at hentry
      cases hentry
      exact ⟨hcarries, src, time, List.mem_concat_self⟩
  | gossip now beat => exact hold ((gossip_relays hstep).2.2 id msg stamp hentry)

/-- **A heartbeat** leaves nothing that is old. -/
theorem recent_of_heartbeat {s s' : GossipService M} {now beat : Nat} {out : List GossipSend}
    (h : s.gossip W now beat = some (s', out))
    (hdue : s.config.interval < beat - s.lastHeartbeat) : s'.Recent now := by
  rcases gossip_cases h with ⟨hnot, -⟩ | ⟨-, hloop⟩
  · exact absurd hdue (Nat.not_lt.mpr hnot)
  · obtain ⟨hsame, -, hlookup⟩ := gossipLoop_frame hloop
    have hconfig : s'.config = s.config := hsame.config
    intro id msg stamp hentry
    rw [hlookup id] at hentry
    split at hentry
    · cases hentry
    · next hyoung =>
      -- it was in the cache before, and would have been dropped
      have hmem : (⟨id, msg, stamp⟩ : Σ _ : InnerKey, Message × Nat) ∈ s.cache.entries :=
        AList.lookup_eq_some_iff.mp hentry
      have hnot : ¬ s.config.kept < now - stamp := fun hold => hyoung ⟨_, hmem, rfl, hold⟩
      rw [hconfig]
      omega

/-- **Step.** What comes in later is no older. -/
theorem Recent.step {depth : Nat} {s s' : GossipService M} {now last : Nat} (h : s.Recent now)
    (hnow : now ≤ last) {e : Event} {events : List Event}
    (hclock : Chronological last (e :: events)) {out : List GossipSend}
    (hstep : (machine W K depth).step s e = some (s', out)) : s'.Recent now := by
  have hconfig := (step_same hstep).config
  intro id msg stamp hentry
  rw [hconfig]
  cases e with
  | kad message =>
    rw [(kad_frame hstep).2.1] at hentry
    exact h id msg stamp hentry
  | recv src msg' time now' =>
    rcases (recv_copies hstep id src).2 with ⟨hsame, -⟩ | ⟨-, hnew, -⟩
    · rw [hsame] at hentry
      exact h id msg stamp hentry
    · rw [hnew] at hentry
      cases hentry
      exact Nat.le_add_right_of_le (hnow.trans hclock.le_after)
  | gossip now' beat => exact h id msg stamp ((gossip_relays hstep).2.2 id msg stamp hentry)

/-- **Run.** -/
theorem recent_of_run {depth : Nat} {s s' : GossipService M} {now last : Nat} (h : s.Recent now)
    (hnow : now ≤ last) {events : List Event} (hclock : Chronological last events)
    {outs : List GossipSend} (hrun : (machine W K depth).run s events = some (s', outs)) :
    s'.Recent now := by
  induction events generalizing s last outs with
  | nil =>
    cases hrun
    exact h
  | cons e events ih =>
    obtain ⟨s₁, out, outs', hstep, hrest, -⟩ := (machine W K depth).run_cons_eq_some.mp hrun
    exact ih (h.step hnow hclock hstep) (hnow.trans hclock.le_after) hclock.tail hrest

/-- **The cache holds what came in, and not for long**: in every run, each entry is a message that
came in when its stamp tells, filed under its id; and once a heartbeat has been due at which the
clock read `now`, no entry is from before messages were kept at that reading. -/
theorem cache_holds_recent {depth : Nat} {address : SocketAddr} {kad : Kademlia M}
    {config : GossipConfig} {lastHeartbeat : Nat} {picks : Nat → Nat} {events : List Event}
    (hclock : (events.flatMap Event.times).Pairwise (· ≤ ·)) {s : GossipService M}
    {outs : List GossipSend}
    (hrun : (machine W K depth).run (new address kad config lastHeartbeat picks) events =
      some (s, outs)) :
    s.CameIn W events ∧
    ∀ before now beat after s₁ outs₁, events = before ++ .gossip now beat :: after →
      (machine W K depth).run (new address kad config lastHeartbeat picks) before =
        some (s₁, outs₁) →
      config.interval < beat - s₁.lastHeartbeat →
      ∀ id msg stamp, s.cache.lookup id = some (msg, stamp) → now ≤ stamp + config.kept := by
  have hsame : ∀ {events : List Event} {s : GossipService M} {outs : List GossipSend},
      (machine W K depth).run (new address kad config lastHeartbeat picks) events =
        some (s, outs) → s.config = config := by
    intro events s outs hrun
    have h := (machine W K depth).run_induct (P := SameService _)
      (fun _ _ _ _ hs hstep => hs.trans (step_same hstep)) (.refl _) hrun
    exact h.config
  constructor
  · refine (machine W K depth).run_history (A := fun _ => True)
      (P := fun s events _ => s.CameIn W events) (fun _ _ _ _ _ _ h _ hstep => h.step hstep) ?_
      (fun _ _ => trivial) hrun
    intro id msg stamp hentry
    rw [show (new address kad config lastHeartbeat picks).cache.lookup id = none from
      AList.lookup_empty _] at hentry
    cases hentry
  · rintro before now beat after s₁ outs₁ rfl hbefore hdue
    obtain ⟨t, o₁, o₂, hrun₁, hrun₂, -⟩ := (machine W K depth).run_append_eq_some.mp hrun
    obtain rfl : t = s₁ := congrArg Prod.fst (Option.some.inj (hrun₁.symm.trans hbefore))
    obtain ⟨s₂, out, outs', hstep, hrest, -⟩ := (machine W K depth).run_cons_eq_some.mp hrun₂
    have hlate : Chronological 0 (.gossip now beat :: after) := by
      rw [List.flatMap_append, List.pairwise_append] at hclock
      exact List.pairwise_cons.mpr ⟨fun _ _ => Nat.zero_le _, hclock.2.1⟩
    rw [← hsame hbefore] at hdue
    have hrecent := recent_of_run (recent_of_heartbeat hstep hdue) hlate.gossip.2 hlate.tail hrest
    intro id msg stamp hentry
    rw [← hsame hrun]
    exact hrecent id msg stamp hentry

/-- The heartbeat of `copies` is due at 30, and what comes in after it is held. -/
theorem copies_cached_recently : ∃ (s : GossipService ListedNodes) (outs : List GossipSend),
    (machine bothGossips (.json localPeer [] [] [] []) 2).run
      (new localPeer.address someKad someConfig 0 fun n => n) copies = some (s, outs) ∧
    s.cache.lookup someGossip.id = some (someGossipMessage, 32) ∧
    s.CameIn bothGossips copies ∧
    ∀ before now beat after s₁ outs₁, copies = before ++ .gossip now beat :: after →
      (machine bothGossips (.json localPeer [] [] [] []) 2).run
        (new localPeer.address someKad someConfig 0 fun n => n) before = some (s₁, outs₁) →
      someConfig.interval < beat - s₁.lastHeartbeat →
      ∀ id msg stamp, s.cache.lookup id = some (msg, stamp) →
        now ≤ stamp + someConfig.kept := by
  have hruns : ((machine (M := ListedNodes) bothGossips (.json localPeer [] [] [] []) 2).run
      (new localPeer.address someKad someConfig 0 fun n => n) copies).map
      (fun r => r.1.cache.lookup someGossip.id) = some (some (someGossipMessage, 32)) := by
    decide +kernel
  obtain ⟨⟨s, outs⟩, hrun, hcached⟩ := Option.map_eq_some_iff.mp hruns
  exact ⟨s, outs, hrun, hcached, cache_holds_recent (by decide) hrun⟩

end GossipService

end Udp2p
