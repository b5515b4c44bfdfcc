import Udp2p.Lib.Machine
import Udp2p.Lib.Collections
import Udp2p.Net.SocketAddr
import Udp2p.Protocol.Packetize

/-!
# The outbox of `GDUdp`

Every packet sent with a return receipt is kept in the outbox, under its message id and its number,
together with the addresses it was sent to, the addresses that acknowledged it and the number of
attempts. `maintain` drops what is settled or given up and sends the rest again.

`maintain` iterates over a clone while `send_reliable` changes the live table: `maintain_eq` says
that this is one fold over a list of sendings fixed in advance. The other lemmas say what each
operation does to `entry g id n`, which is all that later modules look at.
-/

namespace Udp2p

/-- A record of the outbox: a packet that was sent at least once. -/
structure Entry where
  sentSet : HashSet SocketAddr
  ackSet : HashSet SocketAddr
  packet : Packet
  attempts : Nat
  tried : 1 ≤ attempts

namespace Entry

/-- The record of a first sending. -/
def first (peer : SocketAddr) (packet : Packet) : Entry where
  sentSet := (∅ : HashSet SocketAddr).insert peer
  ackSet := ∅
  packet := packet
  attempts := 1
  tried := le_rfl

/-- One more sending, perhaps to a new address. -/
def sent (e : Entry) (peer : SocketAddr) : Entry :=
  { e with
    sentSet := e.sentSet.insert peer
    attempts := e.attempts + 1
    tried := Nat.le_add_left 1 e.attempts }

/-- A receipt from `src`. -/
def acked (e : Entry) (src : SocketAddr) : Entry := { e with ackSet := e.ackSet.insert src }

/-- `k` more sendings to addresses it was sent to before. -/
def resent (e : Entry) (k : Nat) : Entry :=
  { e with attempts := e.attempts + k, tried := Nat.le_add_right_of_le e.tried }

/-- What `maintain` keeps: sent set and ack set differ and there are attempts left. -/
def Kept (e : Entry) : Prop := ¬ e.sentSet.Same e.ackSet ∧ e.attempts < 10

instance : DecidablePred Kept :=
  fun e => inferInstanceAs (Decidable (¬ e.sentSet.Same e.ackSet ∧ e.attempts < 10))

theorem kept_iff {e : Entry} : e.Kept ↔ ¬ (e.sentSet.Same e.ackSet ∨ 10 ≤ e.attempts) := by
  grind [Kept]

/-- The addresses that have not acknowledged. -/
def resend (e : Entry) : HashSet SocketAddr := e.sentSet.difference e.ackSet

theorem mem_resend {e : Entry} {d : SocketAddr} : d ∈ e.resend ↔ d ∈ e.sentSet ∧ d ∉ e.ackSet :=
  HashSet.mem_difference

theorem sent_eq_resent {e : Entry} {peer : SocketAddr} (h : peer ∈ e.sentSet) :
    e.sent peer = e.resent 1 := by
  simp [sent, resent, HashSet.insert_of_mem h]

@[simp] theorem resent_zero (e : Entry) : e.resent 0 = e := rfl

theorem resent_resent (e : Entry) (j k : Nat) : (e.resent j).resent k = e.resent (j + k) := by
  simp [resent, Nat.add_assoc]

end Entry

/-- What is handed to the socket: the bytes of a packet and where they go. -/
structure Datagram (c : ByteRep Packet) where
  packet : Packet
  bytes : List UInt8
  dest : SocketAddr
  isWire : c.asBytes packet = some bytes

/-- A copy of packet `n` of message `id` for `d`. -/
def Datagram.Copies {c : ByteRep Packet} (id : InnerKey) (n : Nat) (d : SocketAddr)
    (x : Datagram c) : Prop :=
  x.packet.id = id ∧ x.packet.n = n ∧ x.dest = d

instance {c : ByteRep Packet} (id : InnerKey) (n : Nat) (d : SocketAddr) :
    DecidablePred (Datagram.Copies (c := c) id n d) :=
  fun x => inferInstanceAs (Decidable (x.packet.id = id ∧ x.packet.n = n ∧ x.dest = d))

structure GDUdp where
  addr : SocketAddr
  outbox : HashMap InnerKey (HashMap Nat Entry)

namespace GDUdp

variable (c : ByteRep Packet)

def new (addr : SocketAddr) : GDUdp where
  addr := addr
  outbox := ∅

/-- The record of packet `n` of message `id`. -/
def entry (g : GDUdp) (id : InnerKey) (n : Nat) : Option Entry :=
  (g.outbox.lookup id).bind fun map => map.lookup n

/-- `if let Some(bytes) = packet.as_bytes()`, then `send_to`. -/
def transmit (peer : SocketAddr) (packet : Packet) : List (Datagram c) :=
  match h : c.asBytes packet with
  | some bytes => [⟨packet, bytes, peer, h⟩]
  | none => []

/-- Record the sending in the outbox, then transmit. -/
def sendReliable (g : GDUdp) (peer : SocketAddr) (packet : Packet) : GDUdp × List (Datagram c) :=
  let outbox :=
    match g.outbox.lookup packet.id with
    | some map =>
      match map.lookup packet.n with
      | some e => g.outbox.insert packet.id (map.insert packet.n (e.sent peer))
      | none => g.outbox.insert packet.id (map.insert packet.n (.first peer packet))
    | none => g.outbox.insert packet.id (AList.singleton packet.n (.first peer packet))
  ({ g with outbox }, transmit c peer packet)

/-- The address is parsed before the outbox is looked at; a text that is no address panics. -/
def processAck (A : AddrText) (g : GDUdp) (id : InnerKey) (packetNumber : Nat)
    (src : AddressBytes) : Option GDUdp := do
  let src ← A.parseBytes src
  match g.outbox.lookup id with
  | some map =>
    match map.lookup packetNumber with
    | some e =>
      return { g with outbox := g.outbox.insert id (map.insert packetNumber (e.acked src)) }
    | none => return g
  | none => return g

/-- The `retain` of `maintain`: drop settled and given-up entries, then ids without entries. -/
def expire (g : GDUdp) : GDUdp :=
  { g with
    outbox := g.outbox.retain fun _ map =>
      let map := map.retain fun _ e => if e.Kept then some e else none
      if map.isEmpty then none else some map }

/-- `send_reliable` after the datagrams sent so far. -/
def sendNext (r : GDUdp × List (Datagram c)) (peer : SocketAddr) (packet : Packet) :
    GDUdp × List (Datagram c) :=
  let (g, out) := sendReliable c r.1 peer packet
  (g, r.2 ++ out)

/-- Drop, then send again what is left: the loops run over a clone of the outbox. -/
def maintain (g : GDUdp) : GDUdp × List (Datagram c) :=
  let g := expire g
  -- what is iterated over is the table as it is before the first sending
  g.outbox.entries.foldl (fun r m =>
    m.2.entries.foldl (fun r e =>
      if e.2.attempts < 10 then
        e.2.resend.toList.foldl (fun r peer => sendNext c r peer e.2.packet) r
      else r) r) (g, [])

/-- What happens to a `GDUdp`. -/
inductive Op where
  | sendReliable (peer : SocketAddr) (packet : Packet)
  | processAck (id : InnerKey) (packetNumber : Nat) (src : AddressBytes)
  | maintain
  deriving DecidableEq

/-- A `GDUdp` under any interleaving of its operations; the outputs are the datagrams sent. -/
def machine (A : AddrText) : Machine GDUdp Op (Datagram c) where
  step g
    | .sendReliable peer packet => some (sendReliable c g peer packet)
    | .processAck id n src => (processAck A g id n src).map fun g => (g, [])
    | .maintain => some (maintain c g)

theorem processAck_of_step {A : AddrText} {g g' : GDUdp} {id : InnerKey} {n : Nat}
    {src : AddressBytes} {out : List (Datagram c)}
    (h : (machine c A).step g (.processAck id n src) = some (g', out)) :
    processAck A g id n src = some g' ∧ out = [] := by
  obtain ⟨g'', hack, heq⟩ := Option.map_eq_some_iff.mp h
  cases heq
  exact ⟨hack, rfl⟩

theorem maintain_of_step {A : AddrText} {g g' : GDUdp} {out : List (Datagram c)}
    (h : (machine c A).step g .maintain = some (g', out)) : maintain c g = (g', out) :=
  Option.some.inj h

/-! ## A packet and an address for examples -/

def somePacket : Packet :=
  { id := List.Vector.replicate 32 1, n := 1, totalN := 1, bytes := "00", ret := 1 }

def destination : SocketAddr := .v4 ⟨10, 0, 0, 2⟩ 9292

/-- Write packets as `serde_json` does, and read back that one. -/
def someCodec : ByteRep Packet where
  asBytes packet := some (packetJson packet)
  fromBytes bytes := if bytes = packetJson somePacket then some somePacket else none

theorem someCodec_total : someCodec.Total := fun _ => rfl

/-! ## What each operation does to an entry -/

theorem entry_new (addr : SocketAddr) (id : InnerKey) (n : Nat) : (new addr).entry id n = none := by
  simp [entry, new]

theorem mem_outbox_of_entry {g : GDUdp} {id : InnerKey} {n : Nat} {e : Entry}
    (h : g.entry id n = some e) : id ∈ g.outbox := by
  obtain ⟨map, hmap, -⟩ := Option.bind_eq_some_iff.mp h
  exact AList.lookup_isSome.mp (Option.isSome_iff_exists.mpr ⟨map, hmap⟩)

theorem entry_insert (g : GDUdp) (id : InnerKey) (map : HashMap Nat Entry) (id' : InnerKey)
    (n : Nat) : entry { g with outbox := g.outbox.insert id map } id' n =
      if id' = id then map.lookup n else g.entry id' n := by
  rw [entry, AList.lookup_insert_ite]
  split
  · rfl
  · rfl

/-- The record of a sending that follows `e?`. -/
def afterSend (peer : SocketAddr) (packet : Packet) : Option Entry → Entry
  | some e => e.sent peer
  | none => .first peer packet

theorem afterSend_sentSet (peer : SocketAddr) (packet : Packet) (e? : Option Entry) :
    (afterSend peer packet e?).sentSet = ((e?.map Entry.sentSet).getD ∅).insert peer := by
  cases e? <;> rfl

theorem afterSend_ackSet (peer : SocketAddr) (packet : Packet) (e? : Option Entry) :
    (afterSend peer packet e?).ackSet = (e?.map Entry.ackSet).getD ∅ := by
  cases e? <;> rfl

/-- A sending replaces the map of the packet's id by one that differs at the packet's number. -/
theorem sendReliable_outbox (g : GDUdp) (peer : SocketAddr) (packet : Packet) :
    ∃ map : HashMap Nat Entry,
      (sendReliable c g peer packet).1 = { g with outbox := g.outbox.insert packet.id map } ∧
      ∀ n, map.lookup n = if n = packet.n then
        some (afterSend peer packet (g.entry packet.id packet.n)) else g.entry packet.id n := by
  unfold sendReliable entry
  cases hid : g.outbox.lookup packet.id with
  | some map =>
    cases hn : map.lookup packet.n with
    | some e =>
      refine ⟨map.insert packet.n (e.sent peer), by simp only [hn], fun n => ?_⟩
      rw [AList.lookup_insert_ite]
      simp [hn, afterSend]
    | none =>
      refine ⟨map.insert packet.n (.first peer packet), by simp only [hn], fun n => ?_⟩
      rw [AList.lookup_insert_ite]
      simp [hn, afterSend]
  | none =>
    refine ⟨AList.singleton packet.n (.first peer packet), rfl, fun n => ?_⟩
    rw [AList.lookup_singleton]
    simp [afterSend]

theorem entry_sendReliable (g : GDUdp) (peer : SocketAddr) (packet : Packet) (id : InnerKey)
    (n : Nat) : (sendReliable c g peer packet).1.entry id n =
      if id = packet.id ∧ n = packet.n then
        some (afterSend peer packet (g.entry packet.id packet.n))
      else g.entry id n := by
  obtain ⟨map, heq, hmap⟩ := sendReliable_outbox c g peer packet
  rw [heq, entry_insert, hmap]
  by_cases hid : id = packet.id
  · subst hid
    simp
  · simp [hid]

/-- An ack for a packet in the outbox adds its address to the ack set; any other changes nothing. -/
theorem processAck_cases {A : AddrText} {g g' : GDUdp} {id : InnerKey} {n : Nat}
    {src : AddressBytes} (h : processAck A g id n src = some g') :
    ∃ d, A.parseBytes src = some d ∧
      (g' = g ∧ g.entry id n = none ∨
      ∃ e, ∃ map : HashMap Nat Entry, g.entry id n = some e ∧
        g' = { g with outbox := g.outbox.insert id map } ∧
        ∀ n', map.lookup n' = if n' = n then some (e.acked d) else g.entry id n') := by
  obtain ⟨d, hd, hrest⟩ := Option.bind_eq_some_iff.mp h
  refine ⟨d, hd, ?_⟩
  unfold entry
  cases hid : g.outbox.lookup id with
  | none =>
    simp only [hid] at hrest
    cases hrest
    exact Or.inl ⟨rfl, rfl⟩
  | some map =>
    simp only [hid] at hrest
    cases hn : map.lookup n with
    | none =>
      simp only [hn] at hrest
      cases hrest
      exact Or.inl ⟨rfl, hn⟩
    | some e =>
      simp only [hn] at hrest
      cases hrest
      exact Or.inr ⟨e, map.insert n (e.acked d), hn, rfl, fun n' =>
        AList.lookup_insert_ite map n n' _⟩

theorem entry_processAck {A : AddrText} {g g' : GDUdp} {id : InnerKey} {n : Nat}
    {src : AddressBytes} (h : processAck A g id n src = some g') :
    ∃ d, A.parseBytes src = some d ∧ ∀ id' n', g'.entry id' n' =
      if id' = id ∧ n' = n then (g.entry id n).map (·.acked d) else g.entry id' n' := by
  obtain ⟨d, hd, hcases⟩ := processAck_cases h
  refine ⟨d, hd, fun id' n' => ?_⟩
  rcases hcases with ⟨rfl, hnone⟩ | ⟨e, map, he, rfl, hmap⟩
  · -- nothing was recorded
    by_cases heq : id' = id ∧ n' = n
    · simp [heq, hnone]
    · simp [heq]
  · rw [entry_insert, hmap, he]
    by_cases hid : id' = id
    · subst hid
      simp
    · simp [hid]

/-- An ack leaves of a record all but its ack set as it was. -/
theorem entry_before_processAck {A : AddrText} {g g' : GDUdp} {id : InnerKey} {n : Nat}
    {src : AddressBytes} (h : processAck A g id n src = some g') {id' : InnerKey} {n' : Nat}
    {e' : Entry} (he' : g'.entry id' n' = some e') :
    ∃ e acks, g.entry id' n' = some e ∧ e' = { e with ackSet := acks } := by
  obtain ⟨d, -, hentry⟩ := entry_processAck h
  rw [hentry] at he'
  split at he'
  · next hsame =>
    obtain ⟨rfl, rfl⟩ := hsame
    obtain ⟨e, he, rfl⟩ := Option.map_eq_some_iff.mp he'
    exact ⟨e, _, he, rfl⟩
  · exact ⟨e', e'.ackSet, he', rfl⟩

/-- An ack with a parseable address is recorded. -/
theorem processAck_of_entry {A : AddrText} {g : GDUdp} {id : InnerKey} {n : Nat} {e : Entry}
    {src : AddressBytes} {d : SocketAddr} (hd : A.parseBytes src = some d)
    (he : g.entry id n = some e) :
    ∃ g', processAck A g id n src = some g' ∧ g'.entry id n = some (e.acked d) := by
  have hsome : (processAck A g id n src).isSome := by
    simp only [processAck, hd, Option.bind_eq_bind, Option.bind_some]
    split
    · split <;> rfl
    · rfl
  obtain ⟨g', hack⟩ := Option.isSome_iff_exists.mp hsome
  obtain ⟨d', hd', hentry⟩ := entry_processAck hack
  rw [hd, Option.some.injEq] at hd'
  refine ⟨g', hack, ?_⟩
  rw [hentry, if_pos ⟨rfl, rfl⟩, he, hd', Option.map_some]

theorem entry_expire (g : GDUdp) (id : InnerKey) (n : Nat) :
    (expire g).entry id n = (g.entry id n).filter fun e => decide e.Kept := by
  simp only [entry, expire, AList.lookup_retain]
  cases g.outbox.lookup id with
  | none => rfl
  | some map =>
    have hinner := AList.lookup_retain map (fun _ e => if e.Kept then some e else none) n
    have hfilter : (map.lookup n).bind (fun e => if e.Kept then some e else none) =
        (map.lookup n).filter fun e => decide e.Kept := by
      cases map.lookup n <;> simp [Option.filter]
    simp only [Option.bind_some]
    split
    · next hempty =>
      rw [← hfilter, ← hinner]
      exact (AList.isEmpty_iff.mp hempty n).symm
    · rw [Option.bind_some, hinner, hfilter]

theorem transmit_eq {packet : Packet} {bytes : List UInt8} (h : c.asBytes packet = some bytes)
    (peer : SocketAddr) : transmit c peer packet = [⟨packet, bytes, peer, h⟩] := by
  unfold transmit
  split
  · next bytes' h' =>
    rw [h, Option.some.injEq] at h'
    subst h'
    rfl
  · next hnone =>
    rw [h] at hnone
    cases hnone

theorem mem_transmit {peer : SocketAddr} {packet : Packet} {x : Datagram c}
    (h : x ∈ transmit c peer packet) : x.packet = packet ∧ x.dest = peer := by
  unfold transmit at h
  split at h
  · cases List.mem_singleton.mp h
    exact ⟨rfl, rfl⟩
  · cases h

/-! ## A pass as one fold -/

/-- The sendings a pass makes when the table left to it is `outbox`, in the order it makes them. -/
def resendings (outbox : HashMap InnerKey (HashMap Nat Entry)) : List (SocketAddr × Packet) :=
  outbox.entries.flatMap fun m => m.2.entries.flatMap fun e =>
    if e.2.attempts < 10 then e.2.resend.toList.map fun peer => (peer, e.2.packet) else []

/-- Send a list of packets, one after another. -/
def sendAll (g : GDUdp) (sendings : List (SocketAddr × Packet)) : GDUdp × List (Datagram c) :=
  sendings.foldl (fun r x => sendNext c r x.1 x.2) (g, [])

/-- The three loops of `maintain` are one loop over its sendings. -/
theorem maintain_eq (g : GDUdp) :
    maintain c g = sendAll c (expire g) (resendings (expire g).outbox) := by
  simp only [maintain, sendAll, resendings, List.foldl_flatMap]
  congr
  funext r m
  congr
  funext r e
  split
  · rw [List.foldl_map]
  · rfl

/-- Is this a sending of packet `n` of message `id`? -/
def Sends (id : InnerKey) (n : Nat) (x : SocketAddr × Packet) : Prop := x.2.id = id ∧ x.2.n = n

instance (id : InnerKey) (n : Nat) : DecidablePred (Sends id n) :=
  fun x => inferInstanceAs (Decidable (x.2.id = id ∧ x.2.n = n))

/-- Sendings to addresses an entry was sent to before only count as attempts; sendings of other
packets leave it as it is. -/
theorem entry_sendAll {g : GDUdp} {id : InnerKey} {n : Nat} {out : List (Datagram c)}
    (sendings : List (SocketAddr × Packet))
    (h : ∀ x ∈ sendings, Sends id n x → ∃ e, g.entry id n = some e ∧ x.1 ∈ e.sentSet) :
    (sendings.foldl (fun r x => sendNext c r x.1 x.2) (g, out)).1.entry id n =
      (g.entry id n).map (·.resent (sendings.countP fun x => Sends id n x)) := by
  induction sendings generalizing g out with
  | nil => simp
  | cons x xs ih =>
    rw [List.foldl_cons, sendNext, ih, entry_sendReliable]
    · by_cases hx : Sends id n x
      · -- an address sent to before: the sending only counts
        obtain ⟨e, he, hsent⟩ := h x List.mem_cons_self hx
        obtain ⟨rfl, rfl⟩ := hx
        simp [he, afterSend, Entry.sent_eq_resent hsent, Entry.resent_resent, Sends, Nat.add_comm]
      · have hne : ¬ (id = x.2.id ∧ n = x.2.n) := fun hne => hx ⟨hne.1.symm, hne.2.symm⟩
        simp [hne, hx]
    · -- after the first sending the later addresses are still in the sent set
      intro y hy hsends
      obtain ⟨e, he, hsent⟩ := h y (List.mem_cons_of_mem x hy) hsends
      rw [entry_sendReliable]
      by_cases hx : id = x.2.id ∧ n = x.2.n
      · obtain ⟨rfl, rfl⟩ := hx
        refine ⟨e.sent x.1, by simp [he, afterSend], ?_⟩
        exact HashSet.mem_insert.mpr (Or.inr hsent)
      · exact ⟨e, by simp [hx, he], hsent⟩

/-- Sendings of other packets leave an entry as it is. -/
theorem entry_sendings_other {sendings : List (SocketAddr × Packet)} {id : InnerKey} {n : Nat}
    (h : ∀ x ∈ sendings, ¬ Sends id n x) (r : GDUdp × List (Datagram c)) :
    (sendings.foldl (fun r x => sendNext c r x.1 x.2) r).1.entry id n = r.1.entry id n := by
  have hcount : sendings.countP (fun x => decide (Sends id n x)) = 0 := by
    rw [List.countP_eq_zero]
    intro x hx
    simpa using h x hx
  rw [entry_sendAll c sendings fun x hx hsends => absurd hsends (h x hx), hcount]
  cases r.1.entry id n <;> rfl

/-- A sending that is the only one of its packet is recorded. -/
theorem entry_sendAll_of_mem {g : GDUdp} {x : SocketAddr × Packet}
    {pre post : List (SocketAddr × Packet)} (hpre : ∀ y ∈ pre, ¬ Sends x.2.id x.2.n y)
    (hpost : ∀ y ∈ post, ¬ Sends x.2.id x.2.n y) :
    (sendAll c g (pre ++ x :: post)).1.entry x.2.id x.2.n =
      some (afterSend x.1 x.2 (g.entry x.2.id x.2.n)) := by
  rw [sendAll, List.foldl_append, List.foldl_cons, entry_sendings_other c hpost, sendNext,
    entry_sendReliable, if_pos ⟨rfl, rfl⟩, entry_sendings_other c hpre]

/-- A sending files no packets but its own. -/
theorem packet_afterSend (peer : SocketAddr) (packet : Packet) (e? : Option Entry) :
    (afterSend peer packet e?).packet = packet ∨
      ∃ e, e? = some e ∧ (afterSend peer packet e?).packet = e.packet := by
  cases e? with
  | none => exact Or.inl rfl
  | some e => exact Or.inr ⟨e, rfl, rfl⟩

/-- A record after some sendings holds the packet it held before, or one of those sent. -/
theorem packet_sendAll {g : GDUdp} {sendings : List (SocketAddr × Packet)} {id : InnerKey}
    {n : Nat} {e' : Entry} (he' : (sendAll c g sendings).1.entry id n = some e') :
    (∃ e, g.entry id n = some e ∧ e'.packet = e.packet) ∨ ∃ x ∈ sendings, e'.packet = x.2 := by
  rw [sendAll] at he'
  generalize ([] : List (Datagram c)) = out at he'
  induction sendings generalizing g out with
  | nil => exact Or.inl ⟨e', he', rfl⟩
  | cons x xs ih =>
    rcases ih _ he' with ⟨e, he, heq⟩ | ⟨y, hy, heq⟩
    · change (sendReliable c g x.1 x.2).1.entry id n = some e at he
      rw [entry_sendReliable] at he
      split at he
      · next hsame =>
        obtain ⟨rfl, rfl⟩ := hsame
        cases he
        rcases packet_afterSend x.1 x.2 (g.entry x.2.id x.2.n) with hnew | ⟨e₀, he₀, hold⟩
        · exact Or.inr ⟨x, List.mem_cons_self, heq.trans hnew⟩
        · exact Or.inl ⟨e₀, he₀, heq.trans hold⟩
      · exact Or.inl ⟨e, he, heq⟩
    · exact Or.inr ⟨y, List.mem_cons_of_mem x hy, heq⟩

theorem sendAll_addr (g : GDUdp) (sendings : List (SocketAddr × Packet)) :
    (sendAll c g sendings).1.addr = g.addr := by
  -- generalised over the datagrams sent so far
  have h : ∀ r : GDUdp × List (Datagram c),
      (sendings.foldl (fun r x => sendNext c r x.1 x.2) r).1.addr = r.1.addr := by
    induction sendings with
    | nil =>
      intro r
      rfl
    | cons x xs ih =>
      intro r
      rw [List.foldl_cons, ih]
      rfl
  exact h (g, [])

theorem maintain_addr (g : GDUdp) : (maintain c g).1.addr = g.addr := by
  rw [maintain_eq, sendAll_addr]
  rfl

theorem transmissions_sendAll (g : GDUdp) (sendings : List (SocketAddr × Packet)) :
    (sendAll c g sendings).2 = sendings.flatMap fun x => transmit c x.1 x.2 := by
  have h : ∀ (r : GDUdp × List (Datagram c)),
      (sendings.foldl (fun r x => sendNext c r x.1 x.2) r).2 =
        r.2 ++ sendings.flatMap fun x => transmit c x.1 x.2 := by
    induction sendings with
    | nil => simp
    | cons x xs ih =>
      intro r
      rw [List.foldl_cons, ih, List.flatMap_cons, ← List.append_assoc]
      rfl
  exact h (g, [])

end GDUdp

end Udp2p
