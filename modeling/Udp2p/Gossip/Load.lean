import Udp2p.Gossip.Relay
import Udp2p.Lib.Throttle

/-!
# How often does a node pass one message on?

A message that comes in is published once, and then at every heartbeat while it is young. Heartbeats
are more than the interval apart, so only so many meet it young; and it has to grow old before it
can come in again. So the copies a node sends of one message to one address are bounded by the time
that passes, however many copies come in.

* `Ledger` — the copies sent so far, by the age of the entry in the cache.
* `Ledger.step`, `ledger_of_run` — one event, and a run.
* `copies_bounded` — the copies sent between two readings of the clock.
-/

namespace Udp2p

/-- How long a message is published again. -/
def GossipConfig.alive (config : GossipConfig) : Nat :=
  config.interval * (config.historyGossip % 2 ^ 32)

/-- How long a message is kept. -/
def GossipConfig.kept (config : GossipConfig) : Nat :=
  config.interval * (config.historyLen % 2 ^ 32)

/-- The times a message is published while it is cached: when it comes in, and at heartbeats. -/
def GossipConfig.rounds (config : GossipConfig) : Nat := config.historyGossip % 2 ^ 32 + 2

namespace GossipService

open RoutingTable (ListedNodes localPeer)

variable {M : Type} [LinkedHashMap PeerId PeerInfo M] {W : ByteRep GossipMessage} {K : KadWire}

/-- The message is a gossip message with the id. -/
def carries (W : ByteRep GossipMessage) (id : InnerKey) (message : Message) : Bool :=
  (W.fromBytes message.msg).any fun m => m.id = id

/-- A copy of a gossip message with the id, for the address. -/
def copyOf (W : ByteRep GossipMessage) (id : InnerKey) (dst : SocketAddr) : GossipSend → Bool
  | .toTransport dst' message => dst' = dst && carries W id message
  | _ => false

/-- An event of the service itself, not of its Kademlia instance. -/
def Event.gossips : Event → Bool
  | .kad _ => false
  | _ => true

theorem carries_iff {id : InnerKey} {message : Message} : carries W id message = true ↔
    ∃ m, W.fromBytes message.msg = some m ∧ m.id = id := by
  simp [carries, Option.any_eq_true]

/-! ## Copies of one step -/

/-- Publishing sends one copy to an address at most. -/
theorem publish_copies {s s' : GossipService M} {src : SocketAddr} {message : Message}
    {out : List GossipSend} (h : s.publish src message = some (s', out)) (id : InnerKey)
    (dst : SocketAddr) : s'.lastHeartbeat = s.lastHeartbeat ∧
      out.countP (copyOf W id dst) ≤ if carries W id message then 1 else 0 := by
  constructor
  · obtain ⟨peers, -, heq⟩ := Option.bind_eq_some_iff.mp h
    cases heq
    rfl
  · obtain ⟨peers, -, -, hout⟩ := publish_eq_some h
    rw [hout, List.countP_map]
    by_cases hcarries : carries W id message = true
    · have hone := List.nodup_iff_count_le_one.mp (nodup_recipients h) dst
      rw [if_pos hcarries]
      apply le_trans (List.countP_mono_left fun a _ ha => ?_) hone
      simpa [copyOf, hcarries] using ha
    · rw [if_neg hcarries, Nat.le_zero, List.countP_eq_zero]
      intro a _
      simp [copyOf, hcarries]

/-- What comes in and is not cached is published once; nothing else is, and the heartbeat is as it
was. -/
theorem recv_copies {s s' : GossipService M} {src : SocketAddr} {msg : Message} {time now : Nat}
    {out : List GossipSend} (h : s.recv W src msg time now = some (s', out)) (id : InnerKey)
    (dst : SocketAddr) : s'.lastHeartbeat = s.lastHeartbeat ∧
      (s'.cache.lookup id = s.cache.lookup id ∧ out.countP (copyOf W id dst) = 0 ∨
        s.cache.lookup id = none ∧ s'.cache.lookup id = some (msg, now) ∧
          carries W id msg = true ∧ out.countP (copyOf W id dst) ≤ 1) := by
  obtain ⟨⟨s₁, sends, message?⟩, hhandle, heq⟩ := Option.bind_eq_some_iff.mp h
  cases heq
  have htx : ((message?.map GossipSend.tx).toList).countP (copyOf W id dst) = 0 := by
    cases message? with
    | none => rfl
    | some message => rfl
  rw [List.countP_append, htx, Nat.add_zero]
  -- caching a message changes the entry of its own id only
  have hcache : ∀ {message : GossipMessage}, W.fromBytes msg.msg = some message →
      s.cache.lookup message.id = none → ∀ n, n ≤ (if carries W id msg then 1 else 0) →
      (s.cache.orInsert message.id (msg, now)).lookup id = s.cache.lookup id ∧ n = 0 ∨
        s.cache.lookup id = none ∧
          (s.cache.orInsert message.id (msg, now)).lookup id = some (msg, now) ∧
          carries W id msg = true ∧ n ≤ 1 := by
    intro message hdecode hnew n hn
    by_cases hid : message.id = id
    · have hcarries : carries W id msg = true := carries_iff.mpr ⟨message, hdecode, hid⟩
      rw [if_pos hcarries] at hn
      subst hid
      refine Or.inr ⟨hnew, ?_, hcarries, hn⟩
      rw [AList.lookup_orInsert_self, hnew]
      rfl
    · have hother : ¬ carries W id msg = true := by
        intro hcarries
        obtain ⟨m, hm, heq⟩ := carries_iff.mp hcarries
        rw [hdecode, Option.some.injEq] at hm
        exact hid (hm ▸ heq)
      rw [if_neg hother] at hn
      exact Or.inl ⟨AList.lookup_orInsert_ne _ _ fun heq => hid heq.symm, Nat.le_zero.mp hn⟩
  unfold handleMessage at hhandle
  split at hhandle
  · next message hdecode =>
    split at hhandle
    · next hnew =>
      split at hhandle
      · obtain ⟨⟨s₂, sends⟩, hpublish, heq⟩ := Option.bind_eq_some_iff.mp hhandle
        cases heq
        obtain ⟨hbeat, hcopies⟩ := publish_copies (W := W) hpublish id dst
        refine ⟨hbeat, ?_⟩
        rw [(publish_frame hpublish).2.1, List.countP_cons_of_neg (by simp [copyOf])]
        exact hcache hdecode hnew _ hcopies
      · cases hhandle
        exact ⟨rfl, hcache hdecode hnew 0 (Nat.zero_le _)⟩
    · cases hhandle
      exact ⟨rfl, Or.inl ⟨rfl, rfl⟩⟩
  · cases hhandle
    exact ⟨rfl, Or.inl ⟨rfl, rfl⟩⟩

/-- Entries are filed under the ids of their messages. -/
def Filed (W : ByteRep GossipMessage) (s : GossipService M) : Prop :=
  ∀ id msg stamp, s.cache.lookup id = some (msg, stamp) → carries W id msg = true

/-- One entry of the clone: published while it is young. -/
theorem gossipEntry_copies {now : Nat} {s s' : GossipService M}
    {e : Σ _ : InnerKey, Message × Nat} {out : List GossipSend}
    (h : gossipEntry W now s e = some (s', out)) (id : InnerKey) (dst : SocketAddr) :
    s'.lastHeartbeat = s.lastHeartbeat ∧ out.countP (copyOf W id dst) ≤
      [e].countP fun e => carries W id e.2.1 && decide (now - e.2.2 < s.config.alive) := by
  obtain ⟨alive, halive, h⟩ := Option.bind_eq_some_iff.mp h
  obtain ⟨⟨s₁, out₁⟩, hpublish, h⟩ := Option.bind_eq_some_iff.mp h
  obtain ⟨kept, -, h⟩ := Option.bind_eq_some_iff.mp h
  have hcopies : s₁.lastHeartbeat = s.lastHeartbeat ∧ out₁.countP (copyOf W id dst) ≤
      [e].countP fun e => carries W id e.2.1 && decide (now - e.2.2 < s.config.alive) := by
    rw [durationMul_eq_some halive] at hpublish
    split at hpublish
    · next hyoung =>
      have hyoung : now - e.2.2 < s.config.alive := hyoung
      split at hpublish
      · obtain ⟨hbeat, hle⟩ := publish_copies (W := W) hpublish id dst
        refine ⟨hbeat, hle.trans ?_⟩
        simp [List.countP_singleton, hyoung]
      · cases hpublish
        exact ⟨rfl, Nat.zero_le _⟩
    · cases hpublish
      exact ⟨rfl, Nat.zero_le _⟩
  split at h
  · cases h
    exact hcopies
  · cases h
    exact hcopies

theorem gossipLoop_copies {now : Nat} {s s' : GossipService M}
    {l : List (Σ _ : InnerKey, Message × Nat)} {out : List GossipSend}
    (h : (gossipLoop W now).run s l = some (s', out)) (id : InnerKey) (dst : SocketAddr) :
    s'.lastHeartbeat = s.lastHeartbeat ∧ out.countP (copyOf W id dst) ≤
      l.countP fun e => carries W id e.2.1 && decide (now - e.2.2 < s.config.alive) := by
  induction l generalizing s out with
  | nil =>
    cases h
    exact ⟨rfl, le_rfl⟩
  | cons e l ih =>
    obtain ⟨s₁, out₁, out₂, hstep, hrun, rfl⟩ := (gossipLoop W now).run_cons_eq_some.mp h
    obtain ⟨hbeat, hle⟩ := gossipEntry_copies hstep id dst
    obtain ⟨hbeat', hle'⟩ := ih hrun
    rw [(gossipEntry_frame hstep).1.config] at hle'
    refine ⟨hbeat'.trans hbeat, ?_⟩
    rw [List.countP_append, ← List.singleton_append, List.countP_append]
    exact Nat.add_le_add hle hle'

/-- **A heartbeat** sends one copy to an address at most, and none unless the entry is young. -/
theorem heartbeat_copies {now : Nat} {s s' : GossipService M} (hfiled : s.Filed W)
    {out : List GossipSend} (h : (gossipLoop W now).run s s.cache.entries = some (s', out))
    (id : InnerKey) (dst : SocketAddr) : s'.lastHeartbeat = s.lastHeartbeat ∧
      out.countP (copyOf W id dst) ≤ 1 ∧ (0 < out.countP (copyOf W id dst) →
        ∃ msg stamp, s.cache.lookup id = some (msg, stamp) ∧ now - stamp < s.config.alive) := by
  obtain ⟨hbeat, hle⟩ := gossipLoop_copies h id dst
  -- an entry that carries the id is the one filed under it
  have hfile : ∀ e ∈ s.cache.entries, carries W id e.2.1 = true → e.1 = id := by
    intro e he hcarries
    obtain ⟨m, hm, hid⟩ := carries_iff.mp hcarries
    obtain ⟨m', hm', hid'⟩ :=
      carries_iff.mp (hfiled e.1 e.2.1 e.2.2 (AList.lookup_eq_some_iff.mpr he))
    rw [hm, Option.some.injEq] at hm'
    rw [← hid, ← hid', hm']
  refine ⟨hbeat, ?_, fun hpos => ?_⟩
  · have hone : s.cache.keys.count id ≤ 1 :=
      List.nodup_iff_count_le_one.mp s.cache.nodupKeys id
    apply hle.trans
    apply le_trans (List.countP_mono_left fun e he hyoung => ?_)
      (le_trans (le_of_eq (List.countP_map (p := (· == id)) (f := Sigma.fst)).symm) hone)
    rw [Bool.and_eq_true] at hyoung
    simpa using hfile e he hyoung.1
  · obtain ⟨e, he, hyoung⟩ := List.countP_pos_iff.mp (hpos.trans_le hle)
    rw [Bool.and_eq_true, decide_eq_true_eq] at hyoung
    refine ⟨e.2.1, e.2.2, ?_, hyoung.2⟩
    rw [← hfile e he hyoung.1]
    exact AList.lookup_eq_some_iff.mpr he

/-! ## The ledger -/

/-- The id is not cached: every stay in the cache so far took longer than messages are kept. -/
structure Away (s : GossipService M) (id : InnerKey) (start last copies stays : Nat) : Prop where
  entry : s.cache.lookup id = none
  paid : copies ≤ stays * s.config.rounds
  since : start + stays * (s.config.kept + 1) ≤ last

/-- The id has been cached since `stamp`, after some stays before, and `beats` heartbeats have
published it. -/
structure Staying (s : GossipService M) (id : InnerKey) (start last copies stays : Nat)
    (msg : Message) (stamp beats : Nat) : Prop where
  entry : s.cache.lookup id = some (msg, stamp)
  past : stamp ≤ last
  since : start + stays * (s.config.kept + 1) ≤ stamp
  paid : copies ≤ stays * s.config.rounds + 1 + beats
  few : beats < s.config.rounds
  paced : Paced (s.config.interval + 1) stamp beats s.lastHeartbeat
  seen : 0 < beats → s.lastHeartbeat ≤ last

/-- The copies sent between two readings of the clock are accounted for. -/
def Ledger (s : GossipService M) (id : InnerKey) (start last copies : Nat) : Prop :=
  ∃ stays, s.Away id start last copies stays ∨
    ∃ msg stamp beats, s.Staying id start last copies stays msg stamp beats

section Accounts

variable {id : InnerKey} {start last copies : Nat}

omit [LinkedHashMap PeerId PeerInfo M] in
theorem ledger_new (address : SocketAddr) (kad : Kademlia M) (config : GossipConfig)
    (lastHeartbeat : Nat) (picks : Nat → Nat) (id : InnerKey) (start : Nat) :
    (new address kad config lastHeartbeat picks).Ledger id start start 0 :=
  ⟨0, Or.inl ⟨AList.lookup_empty _, Nat.zero_le _, by simp⟩⟩

omit [LinkedHashMap PeerId PeerInfo M] in
/-- Nothing happens to the id but that time passes. -/
theorem Ledger.pass {s s' : GossipService M} (h : s.Ledger id start last copies)
    (hconfig : s'.config = s.config) (hentry : s'.cache.lookup id = s.cache.lookup id)
    (hbeat : s'.lastHeartbeat = s.lastHeartbeat) {last' : Nat} (hlast : last ≤ last') :
    s'.Ledger id start last' copies := by
  obtain ⟨stays, haway | ⟨msg, stamp, beats, hstay⟩⟩ := h
  · refine ⟨stays, Or.inl ⟨hentry.trans haway.entry, ?_, ?_⟩⟩
    · rw [hconfig]
      exact haway.paid
    · rw [hconfig]
      exact haway.since.trans hlast
  · refine ⟨stays, Or.inr ⟨msg, stamp, beats, hentry.trans hstay.entry, hstay.past.trans hlast,
      ?_, ?_, ?_, ?_, fun hpos => ?_⟩⟩
    · rw [hconfig]
      exact hstay.since
    · rw [hconfig]
      exact hstay.paid
    · rw [hconfig]
      exact hstay.few
    · rw [hconfig, hbeat]
      exact hstay.paced
    · rw [hbeat]
      exact (hstay.seen hpos).trans hlast

omit [LinkedHashMap PeerId PeerInfo M] in
/-- The id is cached, and published once. -/
theorem Ledger.stay {s s' : GossipService M} (h : s.Ledger id start last copies)
    (hconfig : s'.config = s.config) (hnone : s.cache.lookup id = none) {msg : Message} {now : Nat}
    (hentry : s'.cache.lookup id = some (msg, now)) (hlast : last ≤ now) {more : Nat}
    (hmore : more ≤ 1) : s'.Ledger id start now (copies + more) := by
  obtain ⟨stays, haway | ⟨msg', stamp, beats, hstay⟩⟩ := h
  · refine ⟨stays, Or.inr ⟨msg, now, 0, hentry, le_rfl, ?_, ?_, ?_, .zero _ _ _, fun h => ?_⟩⟩
    · rw [hconfig]
      exact haway.since.trans hlast
    · have hpaid := haway.paid
      rw [hconfig]
      omega
    · exact Nat.succ_pos _
    · cases h
  · have hold := hstay.entry
    rw [hnone] at hold
    cases hold

omit [LinkedHashMap PeerId PeerInfo M] in
/-- A heartbeat that finds an entry young has been preceded by so many others at most. -/
theorem Staying.young {s : GossipService M} {stays : Nat} {msg : Message} {stamp beats : Nat}
    (h : s.Staying id start last copies stays msg stamp beats) {now : Nat} (hnow : last ≤ now)
    (hyoung : now - stamp < s.config.alive) : beats + 1 < s.config.rounds := by
  show beats + 1 < s.config.historyGossip % 2 ^ 32 + 2
  rw [GossipConfig.alive] at hyoung
  rcases Nat.eq_zero_or_pos beats with hzero | hpos
  · omega
  · have htimer := (h.paced hpos).trans ((h.seen hpos).trans hnow)
    have hlt : (beats - 1) * (s.config.interval + 1) <
        s.config.interval * (s.config.historyGossip % 2 ^ 32) := by omega
    by_contra hmany
    have hle : s.config.historyGossip % 2 ^ 32 * (s.config.interval + 1) ≤
        (beats - 1) * (s.config.interval + 1) := Nat.mul_le_mul_right _ (by omega)
    rw [Nat.mul_comm s.config.interval] at hlt
    rw [Nat.mul_succ] at hle
    omega

/-- **A heartbeat.** -/
theorem Ledger.heartbeat {s s' : GossipService M} (h : s.Ledger id start last copies)
    (hfiled : s.Filed W) {now beat : Nat} (hnow : last ≤ now) (hbeat : now ≤ beat)
    (hdue : s.config.interval < beat - s.lastHeartbeat) {out : List GossipSend}
    (hloop : (gossipLoop W now).run { s with lastHeartbeat := beat } s.cache.entries =
      some (s', out)) (dst : SocketAddr) :
    s'.Ledger id start beat (copies + out.countP (copyOf W id dst)) := by
  obtain ⟨hsame, -, hlookup⟩ := gossipLoop_frame hloop
  obtain ⟨htimer, hone, hyoung⟩ :=
    heartbeat_copies (s := { s with lastHeartbeat := beat }) hfiled hloop id dst
  have hconfig : s'.config = s.config := hsame.config
  have hset : s'.lastHeartbeat = beat := htimer
  generalize out.countP (copyOf W id dst) = more at hone hyoung ⊢
  obtain ⟨stays, haway | ⟨msg, stamp, beats, hstay⟩⟩ := h
  · -- nothing is cached, so nothing is published
    have hnone : more = 0 := by
      by_contra hpos
      obtain ⟨msg, stamp, hentry, -⟩ := hyoung (Nat.pos_of_ne_zero hpos)
      have hold := haway.entry
      rw [hentry] at hold
      cases hold
    refine ⟨stays, Or.inl ⟨?_, ?_, ?_⟩⟩
    · rw [hlookup id]
      split
      · rfl
      · exact haway.entry
    · rw [hconfig, hnone]
      exact haway.paid
    · rw [hconfig]
      exact haway.since.trans (hnow.trans hbeat)
  · -- the heartbeats that have published the entry, with this one
    obtain ⟨beats', hpaid, hfew, hpaced⟩ : ∃ beats', copies + more ≤
        stays * s.config.rounds + 1 + beats' ∧ beats' < s.config.rounds ∧
        Paced (s.config.interval + 1) stamp beats' beat := by
      have hpast := hstay.past
      rcases Nat.eq_zero_or_pos more with hzero | hpos
      · refine ⟨beats, ?_, hstay.few, hstay.paced.mono (by omega)⟩
        rw [hzero]
        exact hstay.paid
      · obtain ⟨msg', stamp', hentry, hlt⟩ := hyoung hpos
        have hsameEntry := hstay.entry
        rw [show s.cache.lookup id = some (msg', stamp') from hentry] at hsameEntry
        cases hsameEntry
        have hpaid := hstay.paid
        refine ⟨beats + 1, by omega, hstay.young hnow hlt, ?_⟩
        exact hstay.paced.again (by omega) (by omega)
    have hentry := hlookup id
    by_cases hold : ∃ e ∈ s.cache.entries, e.1 = id ∧ Old s.config now e.2.2
    · -- the entry is dropped, and one more stay is over
      rw [if_pos hold] at hentry
      obtain ⟨⟨k, msg', stamp'⟩, he, rfl, hlong⟩ := hold
      have hsameEntry := hstay.entry
      rw [AList.lookup_eq_some_iff.mpr he] at hsameEntry
      cases hsameEntry
      have hlong : s.config.kept < now - stamp := hlong
      have hsince := hstay.since
      refine ⟨stays + 1, Or.inl ⟨hentry, ?_, ?_⟩⟩
      · rw [hconfig, Nat.succ_mul]
        omega
      · rw [hconfig, Nat.succ_mul]
        omega
    · rw [if_neg hold] at hentry
      refine ⟨stays, Or.inr ⟨msg, stamp, beats', hentry.trans hstay.entry, ?_, ?_, ?_, ?_, ?_,
        fun _ => hset.le⟩⟩
      · exact hstay.past.trans (hnow.trans hbeat)
      · rw [hconfig]
        exact hstay.since
      · rw [hconfig]
        exact hpaid
      · rw [hconfig]
        exact hfew
      · rw [hconfig, hset]
        exact hpaced

/-! ## Events -/

/-- Readings that do not decrease take the last one no further back. -/
theorem Chronological.le_after {e : Event} {events : List Event}
    (h : Chronological last (e :: events)) : last ≤ e.after last := by
  cases e with
  | kad message => exact le_rfl
  | recv src msg time now => exact h.recv.1.trans h.recv.2
  | gossip now beat => exact h.gossip.1.trans h.gossip.2

theorem Event.after_le {e : Event} {stop : Nat} (hlast : last ≤ stop)
    (hstop : ∀ t ∈ e.times, t ≤ stop) : e.after last ≤ stop := by
  cases e with
  | kad message => exact hlast
  | recv src msg time now => exact hstop now (by simp [Event.times])
  | gossip now beat => exact hstop beat (by simp [Event.times])

theorem Filed.step {depth : Nat} {s s' : GossipService M} (h : s.Filed W) {e : Event}
    {out : List GossipSend} (hstep : (machine W K depth).step s e = some (s', out)) :
    s'.Filed W := by
  intro id msg stamp hentry
  cases e with
  | kad message =>
    rw [(kad_frame hstep).2.1] at hentry
    exact h id msg stamp hentry
  | recv src msg' time now =>
    rcases (recv_copies hstep id src).2 with ⟨hsame, -⟩ | ⟨-, hnew, hcarries, -⟩
    · rw [hsame] at hentry
      exact h id msg stamp hentry
    · rw [hnew] at hentry
      cases hentry
      exact hcarries
  | gossip now beat => exact h id msg stamp ((gossip_relays hstep).2.2 id msg stamp hentry)

/-- **Step.** -/
theorem Ledger.step {depth : Nat} {s s' : GossipService M} (h : s.Ledger id start last copies)
    (hfiled : s.Filed W) {e : Event} {events : List Event}
    (hclock : Chronological last (e :: events)) {out : List GossipSend}
    (hstep : ((machine W K depth).observe Event.gossips).step s e = some (s', out))
    (dst : SocketAddr) :
    s'.Ledger id start (e.after last) (copies + out.countP (copyOf W id dst)) := by
  obtain ⟨o, hmachine, rfl⟩ := (machine W K depth).observe_step_eq_some.mp hstep
  have hconfig := (step_same hmachine).config
  cases e with
  | kad message =>
    obtain ⟨-, hcache, -⟩ := kad_frame hmachine
    obtain ⟨r, -, heq⟩ := Option.map_eq_some_iff.mp hmachine
    cases heq
    exact h.pass hconfig (by rw [hcache]) rfl le_rfl
  | recv src msg time now =>
    obtain ⟨hbeat, ⟨hsame, hnone⟩ | ⟨hnone, hnew, -, hone⟩⟩ := recv_copies hmachine id dst
    · show s'.Ledger id start now (copies + o.countP (copyOf W id dst))
      rw [hnone]
      exact h.pass hconfig hsame hbeat hclock.le_after
    · exact h.stay hconfig hnone hnew hclock.le_after hone
  | gossip now beat =>
    obtain ⟨hnow, hbeat⟩ := hclock.gossip
    rcases gossip_cases hmachine with ⟨-, rfl, rfl⟩ | ⟨hdue, hloop⟩
    · exact h.pass rfl rfl rfl hclock.le_after
    · exact h.heartbeat hfiled hnow hbeat hdue hloop dst

/-- **Run.** -/
theorem ledger_of_run {depth : Nat} {s s' : GossipService M} (h : s.Ledger id start last copies)
    (hfiled : s.Filed W) {events : List Event} (hclock : Chronological last events) {stop : Nat}
    (hlast : last ≤ stop) (hstop : ∀ e ∈ events, ∀ t ∈ e.times, t ≤ stop)
    {outs : List GossipSend}
    (hrun : ((machine W K depth).observe Event.gossips).run s events = some (s', outs))
    (dst : SocketAddr) : s'.Ledger id start stop (copies + outs.countP (copyOf W id dst)) := by
  induction events generalizing s last copies outs with
  | nil =>
    cases hrun
    exact h.pass rfl rfl rfl hlast
  | cons e events ih =>
    obtain ⟨s₁, out, outs', hstep, hrest, rfl⟩ := Machine.run_cons_eq_some _ |>.mp hrun
    obtain ⟨o, hmachine, -⟩ := (machine W K depth).observe_step_eq_some.mp hstep
    rw [List.countP_append, ← Nat.add_assoc]
    have hnext := Event.after_le hlast (hstop e List.mem_cons_self)
    exact ih (h.step hfiled hclock hstep dst) (hfiled.step hmachine) hclock.tail hnext
      (fun e' he' => hstop e' (List.mem_cons_of_mem e he')) hrest

omit [LinkedHashMap PeerId PeerInfo M] in
/-- A stay costs more than messages are kept, and pays for the rounds of one. -/
theorem Ledger.le {s : GossipService M} (h : s.Ledger id start last copies) :
    copies ≤ s.config.rounds * (1 + (last - start) / (s.config.kept + 1)) := by
  obtain ⟨stays, h⟩ := h
  have hpos : 0 < s.config.kept + 1 := Nat.succ_pos _
  have hstays : stays ≤ (last - start) / (s.config.kept + 1) ∧
      copies ≤ (stays + 1) * s.config.rounds := by
    rcases h with haway | ⟨msg, stamp, beats, hstay⟩
    · have hsince := haway.since
      have hpaid := haway.paid
      refine ⟨(Nat.le_div_iff_mul_le hpos).mpr (by omega), ?_⟩
      rw [Nat.succ_mul]
      omega
    · have hsince := hstay.since
      have hpast := hstay.past
      have hpaid := hstay.paid
      have hfew := hstay.few
      refine ⟨(Nat.le_div_iff_mul_le hpos).mpr (by omega), ?_⟩
      rw [Nat.succ_mul]
      omega
  calc copies ≤ (stays + 1) * s.config.rounds := hstays.2
    _ ≤ (1 + (last - start) / (s.config.kept + 1)) * s.config.rounds := by
        apply Nat.mul_le_mul_right
        omega
    _ = s.config.rounds * (1 + (last - start) / (s.config.kept + 1)) := Nat.mul_comm _ _

end Accounts

/-- **Copies are bounded by time**: in every run, whatever comes in and how often, a service sends
an address at most so many copies of the gossip messages with one id as there are rounds in a stay
in the cache, and as many again each time that messages are kept. -/
theorem copies_bounded {depth : Nat} {address : SocketAddr} {kad : Kademlia M}
    {config : GossipConfig} {lastHeartbeat : Nat} {picks : Nat → Nat} {events : List Event}
    {start stop : Nat} (hforward : start ≤ stop) (hclock : Chronological start events)
    (hstop : ∀ e ∈ events, ∀ t ∈ e.times, t ≤ stop) {s : GossipService M} {outs : List GossipSend}
    (hrun : ((machine W K depth).observe Event.gossips).run
      (new address kad config lastHeartbeat picks) events = some (s, outs))
    (id : InnerKey) (dst : SocketAddr) : outs.countP (copyOf W id dst) ≤
      config.rounds * (1 + (stop - start) / (config.kept + 1)) := by
  have hfiled : (new address kad config lastHeartbeat picks).Filed W := by
    intro id msg stamp hentry
    rw [show (new address kad config lastHeartbeat picks).cache.lookup id = none from
      AList.lookup_empty _] at hentry
    cases hentry
  have hsame : SameService (new address kad config lastHeartbeat picks) s := by
    refine ((machine W K depth).observe Event.gossips).run_induct (P := SameService _) ?_
      (.refl _) hrun
    intro s e s' out hs hstep
    obtain ⟨o, hmachine, -⟩ := (machine W K depth).observe_step_eq_some.mp hstep
    exact hs.trans (step_same hmachine)
  have hledger := ledger_of_run (ledger_new address kad config lastHeartbeat picks id start) hfiled
    hclock hforward hstop hrun dst
  have hle := hledger.le
  rw [hsame.config, Nat.zero_add] at hle
  exact hle

/-- A message comes in, is published again at a heartbeat, comes in again, is forgotten at the next
heartbeat, and comes in once more. -/
def comebacks : List Event :=
  [.recv (.v4 .localhost 9393) someGossipMessage 5 5, .gossip 12 12,
    .recv (.v4 .localhost 9494) someGossipMessage 15 15, .gossip 30 30,
    .recv (.v4 .localhost 9393) someGossipMessage 31 32]

/-- The peer of the table is sent three copies in thirty-two nanoseconds; six would be allowed. -/
theorem copies_sent_bounded : ∃ (s : GossipService ListedNodes) (outs : List GossipSend),
    ((machine (.reading gossipMessageJson [someGossip]) (.json localPeer [] [] [] []) 2).observe
      Event.gossips).run (boundService fun n => n) comebacks = some (s, outs) ∧
    outs.countP (copyOf (.reading gossipMessageJson [someGossip]) someGossip.id
      localPeer.address) = 3 ∧
    outs.countP (copyOf (.reading gossipMessageJson [someGossip]) someGossip.id
      localPeer.address) ≤ someConfig.rounds * (1 + (32 - 0) / (someConfig.kept + 1)) := by
  have hruns : (((machine (M := ListedNodes) (.reading gossipMessageJson [someGossip])
      (.json localPeer [] [] [] []) 2).observe Event.gossips).run
      (boundService fun n => n) comebacks).map
      (fun r => r.2.countP (copyOf (.reading gossipMessageJson [someGossip]) someGossip.id
        localPeer.address)) = some 3 := by decide +kernel
  obtain ⟨⟨s, outs⟩, hrun, hcount⟩ := Option.map_eq_some_iff.mp hruns
  have hclock : Chronological 0 comebacks := by
    show (0 :: comebacks.flatMap Event.times).Pairwise (· ≤ ·)
    decide
  exact ⟨s, outs, hrun, hcount, copies_bounded (by decide) hclock (by decide) hrun _ _⟩

end GossipService

end Udp2p
