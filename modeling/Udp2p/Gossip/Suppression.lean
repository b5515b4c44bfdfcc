import Udp2p.Discovery.Dispatch
import Udp2p.Gossip.Gossip

/-!
# Does the application see a gossip message twice?

A message is handed over only if its id is not cached, and cached then; its entry is dropped by a
heartbeat more than the kept history later. From the moment an id is cached, it is therefore held
back for that long, whatever copies and heartbeats come in between.

* `HeldBack` — an id is cached since some time, or that time is long past.
* `HeldBack.step`, `HeldBack.run` — an id that is held back stays so, and is not handed over before
  the history is over.
* `duplicates_suppressed` — the times between two messages with one id.
-/

namespace Udp2p

namespace GossipService

variable {M : Type} [LinkedHashMap PeerId PeerInfo M] {W : ByteRep GossipMessage} {K : KadWire}

/-- The id has been cached since a time, or that time is more than the history before the last
reading. -/
def HeldBack (s : GossipService M) (id : InnerKey) (since last : Nat) : Prop :=
  (∃ msg stamp, s.cache.lookup id = some (msg, stamp) ∧ since ≤ stamp) ∨
  since + s.config.interval * s.config.historyLen < last

/-- The last reading, after an event. -/
def Event.after (last : Nat) : Event → Nat
  | .kad _ => last
  | .recv _ _ _ now => now
  | .gossip _ beat => beat

/-- Readings that do not decrease, from the last one on. -/
def Chronological (last : Nat) (events : List Event) : Prop :=
  (last :: events.flatMap Event.times).Pairwise (· ≤ ·)

theorem Chronological.tail {last : Nat} {e : Event} {events : List Event}
    (h : Chronological last (e :: events)) : Chronological (e.after last) events := by
  unfold Chronological at h ⊢
  rw [List.flatMap_cons] at h
  cases e with
  | kad message => exact h
  | recv src msg time now => exact (h.of_cons).of_cons
  | gossip now beat => exact (h.of_cons).of_cons

theorem Chronological.recv {last time now : Nat} {src : SocketAddr} {msg : Message}
    {events : List Event} (h : Chronological last (.recv src msg time now :: events)) :
    last ≤ time ∧ time ≤ now := by
  unfold Chronological at h
  simp only [List.flatMap_cons, Event.times, List.cons_append, List.pairwise_cons] at h
  exact ⟨h.1 time List.mem_cons_self, h.2.1 now List.mem_cons_self⟩

theorem Chronological.gossip {last now beat : Nat} {events : List Event}
    (h : Chronological last (.gossip now beat :: events)) : last ≤ now ∧ now ≤ beat := by
  unfold Chronological at h
  simp only [List.flatMap_cons, Event.times, List.cons_append, List.pairwise_cons] at h
  exact ⟨h.1 now List.mem_cons_self, h.2.1 beat List.mem_cons_self⟩

theorem Published.not_toApp {out : List GossipSend} (h : Published out) {time : Nat}
    {message : GossipMessage} : .toApp time message ∉ out := by
  intro hmem
  obtain ⟨dst, m, heq⟩ := h _ hmem
  cases heq

/-- Handed over by one step: the message received, at its time, when its id was not cached; and it
is cached then. -/
theorem step_toApp {depth : Nat} {s s' : GossipService M} {e : Event} {out : List GossipSend}
    (h : (machine W K depth).step s e = some (s', out)) {time : Nat} {message : GossipMessage}
    (hmem : .toApp time message ∈ out) : ∃ src msg now, e = .recv src msg time now ∧
      W.fromBytes msg.msg = some message ∧ s.cache.lookup message.id = none ∧
      s'.cache.lookup message.id = some (msg, now) := by
  cases e with
  | kad m => exact absurd hmem (kad_frame h).2.2.not_toApp
  | recv src msg time' now =>
    obtain ⟨-, ⟨-, rfl, -⟩ | ⟨m, hdecode, hlookup, hcache, ⟨-, rfl⟩ |
      ⟨-, sends, hpublished, rfl⟩⟩⟩ := recv_cases h
    · cases hmem
    · cases hmem
    · have hfirst : time = time' ∧ message = m := by
        rcases List.mem_append.mp hmem with hmem | hmem
        · rcases List.mem_cons.mp hmem with heq | hmem
          · cases heq
            exact ⟨rfl, rfl⟩
          · exact absurd hmem hpublished.not_toApp
        · cases List.mem_singleton.mp hmem
      obtain ⟨rfl, rfl⟩ := hfirst
      refine ⟨src, msg, now, rfl, hdecode, hlookup, ?_⟩
      rw [hcache, AList.lookup_orInsert_self, hlookup]
      rfl
  | gossip now beat => exact absurd hmem (gossip_frame h).2.1.not_toApp

theorem step_same {depth : Nat} {s s' : GossipService M} {e : Event} {out : List GossipSend}
    (h : (machine W K depth).step s e = some (s', out)) : SameService s s' := by
  cases e with
  | kad m => exact (kad_frame h).1
  | recv src msg time now => exact (recv_cases h).1
  | gossip now beat => exact (gossip_frame h).1

/-- An entry stays in the cache, unless it is old when a heartbeat begins. -/
theorem step_lookup {depth : Nat} {s s' : GossipService M} {e : Event} {out : List GossipSend}
    (h : (machine W K depth).step s e = some (s', out)) {id : InnerKey} {msg : Message}
    {stamp : Nat} (hentry : s.cache.lookup id = some (msg, stamp)) :
    s'.cache.lookup id = some (msg, stamp) ∨
      ∃ now beat, e = .gossip now beat ∧ Old s.config now stamp := by
  cases e with
  | kad m =>
    rw [(kad_frame h).2.1]
    exact Or.inl hentry
  | recv src msg' time now =>
    obtain ⟨-, ⟨rfl, -, -⟩ | ⟨m, hdecode, hlookup, hcache, -⟩⟩ := recv_cases h
    · exact Or.inl hentry
    · have hne : id ≠ m.id := by
        rintro rfl
        rw [hlookup] at hentry
        cases hentry
      exact Or.inl (by rw [hcache, AList.lookup_orInsert_ne _ _ hne, hentry])
  | gossip now beat =>
    rcases (gossip_frame h).2.2 id with hkept | ⟨msg', stamp', hlookup, hold⟩
    · exact Or.inl (hkept.trans hentry)
    · rw [hentry, Option.some.injEq, Prod.mk.injEq] at hlookup
      exact Or.inr ⟨now, beat, rfl, hlookup.2 ▸ hold⟩

/-- **Step.** An id that is held back stays so. -/
theorem HeldBack.step {depth : Nat} {s s' : GossipService M} {e : Event} {events : List Event}
    {out : List GossipSend} {id : InnerKey} {since last : Nat}
    (hlen : s.config.historyLen < 2 ^ 32) (h : HeldBack s id since last)
    (hclock : Chronological last (e :: events))
    (hstep : (machine W K depth).step s e = some (s', out)) :
    HeldBack s' id since (e.after last) := by
  have hconfig := (step_same hstep).config
  rcases h with ⟨msg, stamp, hentry, hsince⟩ | hlong
  · rcases step_lookup hstep hentry with hkept | ⟨now, beat, rfl, hold⟩
    · exact Or.inl ⟨msg, stamp, hkept, hsince⟩
    · -- the entry was past the history when the heartbeat began
      have hbeat := hclock.gossip.2
      rw [Old, Nat.mod_eq_of_lt hlen] at hold
      apply Or.inr
      rw [hconfig, Event.after]
      omega
  · apply Or.inr
    rw [hconfig]
    cases e with
    | kad m => exact hlong
    | recv src msg time now =>
      obtain ⟨htime, hnow⟩ := hclock.recv
      exact hlong.trans_le (htime.trans hnow)
    | gossip now beat =>
      obtain ⟨hnow, hbeat⟩ := hclock.gossip
      exact hlong.trans_le (hnow.trans hbeat)

/-- **Run.** An id that is held back is not handed over before the history is over. -/
theorem HeldBack.run {depth : Nat} {s s' : GossipService M} {events : List Event}
    {outs : List GossipSend} {id : InnerKey} {since last : Nat}
    (hlen : s.config.historyLen < 2 ^ 32) (h : HeldBack s id since last)
    (hclock : Chronological last events)
    (hrun : (machine W K depth).run s events = some (s', outs)) {time : Nat}
    {message : GossipMessage} (hmem : .toApp time message ∈ outs) (hid : message.id = id) :
    since + s.config.interval * s.config.historyLen < time := by
  induction events generalizing s outs last with
  | nil =>
    cases hrun
    cases hmem
  | cons e events ih =>
    obtain ⟨s₁, out, outs', hstep, hrest, rfl⟩ := (machine W K depth).run_cons_eq_some.mp hrun
    have hconfig := (step_same hstep).config
    rcases List.mem_append.mp hmem with hmem | hmem
    · obtain ⟨src, msg, now, rfl, -, hlookup, -⟩ := step_toApp hstep hmem
      rw [hid] at hlookup
      rcases h with ⟨msg', stamp, hentry, -⟩ | hlong
      · rw [hlookup] at hentry
        cases hentry
      · exact hlong.trans_le hclock.recv.1
    · rw [← hconfig] at hlen ⊢
      exact ih hlen (h.step (hconfig ▸ hlen) hclock hstep) hclock.tail hrest hmem

/-! ## Handed over twice -/

/-- A message with the id comes in. -/
def Receives (W : ByteRep GossipMessage) (id : InnerKey) (e : Event) : Prop :=
  ∃ src msg time now message, e = .recv src msg time now ∧ W.fromBytes msg.msg = some message ∧
    message.id = id

/-- Whatever becomes cached was received. -/
theorem step_caches {depth : Nat} {s s' : GossipService M} {e : Event} {out : List GossipSend}
    (h : (machine W K depth).step s e = some (s', out)) {id : InnerKey}
    (hnone : s.cache.lookup id = none) (hnot : ¬ Receives W id e) : s'.cache.lookup id = none := by
  cases e with
  | kad m =>
    rw [(kad_frame h).2.1]
    exact hnone
  | recv src msg time now =>
    obtain ⟨-, ⟨rfl, -, -⟩ | ⟨message, hdecode, -, hcache, -⟩⟩ := recv_cases h
    · exact hnone
    · have hne : id ≠ message.id := by
        rintro rfl
        exact hnot ⟨src, msg, time, now, message, rfl, hdecode, rfl⟩
      rw [hcache, AList.lookup_orInsert_ne _ _ hne, hnone]
  | gossip now beat =>
    rcases (gossip_frame h).2.2 id with hkept | ⟨msg, stamp, hlookup, -⟩
    · exact hkept.trans hnone
    · rw [hnone] at hlookup
      cases hlookup

/-- Until a message with the id comes in, it is neither cached nor handed over. -/
theorem run_caches {depth : Nat} {s s' : GossipService M} {events : List Event}
    {outs : List GossipSend} (hrun : (machine W K depth).run s events = some (s', outs))
    {id : InnerKey} (hnone : s.cache.lookup id = none) (hnot : ∀ e ∈ events, ¬ Receives W id e) :
    s'.cache.lookup id = none ∧ ∀ time message, .toApp time message ∈ outs → message.id ≠ id := by
  induction events generalizing s outs with
  | nil =>
    cases hrun
    exact ⟨hnone, fun _ _ hmem => nomatch hmem⟩
  | cons e events ih =>
    obtain ⟨s₁, out, outs', hstep, hrest, rfl⟩ := (machine W K depth).run_cons_eq_some.mp hrun
    have hfirst := hnot e List.mem_cons_self
    obtain ⟨hnone', houts⟩ := ih hrest (step_caches hstep hnone hfirst) fun e' he' =>
      hnot e' (List.mem_cons_of_mem e he')
    refine ⟨hnone', fun time message hmem hid => ?_⟩
    rcases List.mem_append.mp hmem with hmem | hmem
    · obtain ⟨src, msg, now, rfl, hdecode, -, -⟩ := step_toApp hstep hmem
      exact hfirst ⟨src, msg, time, now, message, rfl, hdecode, hid⟩
    · exact houts time message hmem hid

/-- A later message with the same id comes more than the history later. -/
def Apart (config : GossipConfig) (x y : GossipSend) : Prop :=
  ∀ time message time' message', x = .toApp time message → y = .toApp time' message' →
    message.id = message'.id → config.interval * config.historyLen < time' - time

/-- A list whose first element alone is a message handed over. -/
theorem pairwise_apart {out : List GossipSend} (h : ∀ time message, .toApp time message ∉ out.tail)
    (config : GossipConfig) : out.Pairwise (Apart config) := by
  have hnone : ∀ x, ∀ y ∈ out.tail, Apart config x y := by
    rintro x y hy time message time' message' - rfl
    exact absurd hy (h time' message')
  cases out with
  | nil => exact .nil
  | cons x out =>
    exact List.pairwise_cons.mpr ⟨hnone x, List.pairwise_of_forall_mem_list fun z _ => hnone z⟩

/-- One received message is handed over once. -/
theorem step_apart {depth : Nat} {s s' : GossipService M} {e : Event} {out : List GossipSend}
    (h : (machine W K depth).step s e = some (s', out)) (config : GossipConfig) :
    out.Pairwise (Apart config) := by
  by_cases hhands : ∃ time message, .toApp time message ∈ out
  · obtain ⟨time, message, hmem⟩ := hhands
    obtain ⟨src, msg, now, rfl, -⟩ := step_toApp h hmem
    obtain ⟨-, ⟨-, rfl, -⟩ | ⟨m, -, -, -, ⟨-, rfl⟩ | ⟨-, sends, hpublished, rfl⟩⟩⟩ := recv_cases h
    · exact .nil
    · exact .nil
    · refine pairwise_apart (fun time' message' hmem' => ?_) config
      rcases List.mem_append.mp hmem' with hmem' | hmem'
      · exact hpublished.not_toApp hmem'
      · cases List.mem_singleton.mp hmem'
  · refine pairwise_apart (fun time message hmem => hhands ?_) config
    exact ⟨time, message, List.mem_of_mem_tail hmem⟩

theorem run_apart {depth : Nat} {s s' : GossipService M} {events : List Event}
    {outs : List GossipSend} {last : Nat} (hlen : s.config.historyLen < 2 ^ 32)
    (hclock : Chronological last events)
    (hrun : (machine W K depth).run s events = some (s', outs)) :
    outs.Pairwise (Apart s.config) := by
  induction events generalizing s outs last with
  | nil =>
    cases hrun
    exact .nil
  | cons e events ih =>
    obtain ⟨s₁, out, outs', hstep, hrest, rfl⟩ := (machine W K depth).run_cons_eq_some.mp hrun
    have hconfig := (step_same hstep).config
    have hlen₁ : s₁.config.historyLen < 2 ^ 32 := hconfig ▸ hlen
    rw [List.pairwise_append]
    refine ⟨step_apart hstep _, hconfig ▸ ih hlen₁ hclock.tail hrest, ?_⟩
    rintro x hx y hy time message time' message' rfl rfl hid
    obtain ⟨src, msg, now, rfl, -, -, hcached⟩ := step_toApp hstep hx
    -- the first one is cached at its time or later
    have hheld : HeldBack s₁ message.id time now :=
      Or.inl ⟨msg, now, hcached, hclock.recv.2⟩
    have hlong := hheld.run hlen₁ hclock.tail hrest hy hid.symm
    rw [hconfig] at hlong
    omega

/-- **Duplicates are suppressed**: two messages with one id are handed over more than the history
apart; and an id that first comes in from the node's own address is not handed over within the
history after. -/
theorem duplicates_suppressed {depth : Nat} {address : SocketAddr} {kad : Kademlia M}
    {config : GossipConfig} {lastHeartbeat : Nat} {picks : Nat → Nat} {events : List Event}
    {s : GossipService M} {outs : List GossipSend} (hlen : config.historyLen < 2 ^ 32)
    (hclock : (events.flatMap Event.times).Pairwise (· ≤ ·))
    (hrun : (machine W K depth).run (new address kad config lastHeartbeat picks) events =
      some (s, outs)) :
    (outs.Pairwise fun x y => ∀ time message time' message', x = .toApp time message →
      y = .toApp time' message' → message.id = message'.id →
      config.interval * config.historyLen < time' - time) ∧
    ∀ before msg time now after message,
      events = before ++ .recv address msg time now :: after →
      W.fromBytes msg.msg = some message → (∀ e ∈ before, ¬ Receives W message.id e) →
      ∀ time' message', .toApp time' message' ∈ outs → message'.id = message.id →
        config.interval * config.historyLen < time' - time := by
  have hchronological : Chronological 0 events :=
    List.pairwise_cons.mpr ⟨fun _ _ => Nat.zero_le _, hclock⟩
  refine ⟨run_apart (s := new address kad config lastHeartbeat picks) hlen hchronological hrun, ?_⟩
  rintro before msg time now after message rfl hdecode hbefore time' message' hmem hid
  obtain ⟨s₁, o₁, o₂, hrun₁, hrun₂, rfl⟩ := (machine W K depth).run_append_eq_some.mp hrun
  obtain ⟨s₂, out, outs', hstep, hrest, rfl⟩ := (machine W K depth).run_cons_eq_some.mp hrun₂
  have hsame : SameService (new address kad config lastHeartbeat picks) s₁ :=
    (machine W K depth).run_induct (P := SameService _)
      (fun s e s' out hs hstep => hs.trans (step_same hstep)) (.refl _) hrun₁
  have hlen₂ : s₂.config.historyLen < 2 ^ 32 := by
    rw [(step_same hstep).config, hsame.config]
    exact hlen
  -- up to the first copy nothing with the id is cached or handed over
  have hempty : (new address kad config lastHeartbeat picks).cache.lookup message.id = none :=
    AList.lookup_empty _
  obtain ⟨hnone, hquiet⟩ := run_caches hrun₁ hempty hbefore
  obtain ⟨-, ⟨-, -, hcached⟩ | ⟨m, hdecode', -, hcache, hout⟩⟩ := recv_cases hstep
  · have := hcached message hdecode
    rw [hnone] at this
    cases this
  · rw [hdecode, Option.some.injEq] at hdecode'
    subst hdecode'
    rcases hout with ⟨-, rfl⟩ | ⟨hother, -⟩
    · have hlate : Chronological 0 (.recv address msg time now :: after) := by
        rw [List.flatMap_append, List.pairwise_append] at hclock
        exact List.pairwise_cons.mpr ⟨fun _ _ => Nat.zero_le _, hclock.2.1⟩
      have hheld : HeldBack s₂ message.id time now := by
        refine Or.inl ⟨msg, now, ?_, hlate.recv.2⟩
        rw [hcache, AList.lookup_orInsert_self, hnone]
        rfl
      rcases List.mem_append.mp hmem with hmem | hmem
      · exact absurd hid (hquiet time' message' hmem)
      · have hlong := hheld.run hlen₂ hlate.tail hrest hmem hid
        rw [(step_same hstep).config, hsame.config] at hlong
        change time + config.interval * config.historyLen < time' at hlong
        omega
    · exact absurd hsame.address.symm hother

/-! ## A message handed over twice -/

open RoutingTable

/-- What `serde_json` writes. -/
def gossipMessageJson (message : GossipMessage) : List UInt8 :=
  "\x7b\"id\":".toUTF8.data.toList ++ jsonArray message.id.toList ++
    ",\"data\":".toUTF8.data.toList ++ jsonArray message.data ++
    ",\"sender\":\"".toUTF8.data.toList ++ AddrText.standard.textBytes message.sender ++
    "\"\x7d".toUTF8.data.toList

def someGossip : GossipMessage where
  id := List.Vector.replicate 32 9
  data := [1, 2, 3]
  sender := .v4 .localhost 9393

def someGossipMessage : Message := ⟨.gossip, gossipMessageJson someGossip⟩

/-- A message of the node itself. -/
def ownGossip : GossipMessage where
  id := List.Vector.replicate 32 8
  data := [4, 5]
  sender := localPeer.address

def ownGossipMessage : Message := ⟨.gossip, gossipMessageJson ownGossip⟩

/-- Half of the peers are drawn; messages are kept for two heartbeats of ten nanoseconds. -/
def someConfig : GossipConfig where
  historyLen := 2
  historyGossip := 1
  minGossip := 3
  infected n := n / 2
  interval := 10
  check := 5

def someKad : Kademlia ListedNodes :=
  Kademlia.new localPeer 0 ∅ fun n => ⟨n, List.Vector.replicate 32 0⟩

def bothGossips : ByteRep GossipMessage := .reading gossipMessageJson [someGossip, ownGossip]

/-- A message of another node, twice within the history and again after a heartbeat; and one that
first comes in from the node's own address. -/
def copies : List Event :=
  [.recv (.v4 .localhost 9393) someGossipMessage 1 1,
    .recv localPeer.address ownGossipMessage 2 2,
    .recv (.v4 .localhost 9494) someGossipMessage 5 5,
    .recv (.v4 .localhost 9494) ownGossipMessage 6 6, .gossip 30 30,
    .recv (.v4 .localhost 9393) someGossipMessage 31 32,
    .recv (.v4 .localhost 9393) ownGossipMessage 33 33]

/-- A message handed over, and its time. -/
def handedOver : GossipSend → Option (Nat × GossipMessage)
  | .toApp time message => some (time, message)
  | _ => none

/-- The other node's message is handed over at 1 and at 31; the own one, which came back at 2, at
33. -/
theorem copies_suppressed : ∃ (s : GossipService ListedNodes) (outs : List GossipSend),
    (machine bothGossips (.json localPeer [] [] [] []) 2).run
      (new localPeer.address someKad someConfig 0 fun n => n) copies = some (s, outs) ∧
    outs.filterMap handedOver = [(1, someGossip), (31, someGossip), (33, ownGossip)] ∧
    (outs.Pairwise fun x y => ∀ time message time' message', x = .toApp time message →
      y = .toApp time' message' → message.id = message'.id →
      someConfig.interval * someConfig.historyLen < time' - time) ∧
    ∀ before msg time now after message,
      copies = before ++ .recv localPeer.address msg time now :: after →
      bothGossips.fromBytes msg.msg = some message →
      (∀ e ∈ before, ¬ Receives bothGossips message.id e) →
      ∀ time' message', .toApp time' message' ∈ outs → message'.id = message.id →
        someConfig.interval * someConfig.historyLen < time' - time := by
  have hruns : ((machine (M := ListedNodes) bothGossips (.json localPeer [] [] [] []) 2).run
      (new localPeer.address someKad someConfig 0 fun n => n) copies).map
      (fun r => r.2.filterMap handedOver) =
      some [(1, someGossip), (31, someGossip), (33, ownGossip)] := by decide +kernel
  obtain ⟨⟨s, outs⟩, hrun, houts⟩ := Option.map_eq_some_iff.mp hruns
  exact ⟨s, outs, hrun, houts, duplicates_suppressed (by decide) (by decide) hrun⟩

end GossipService

end Udp2p
