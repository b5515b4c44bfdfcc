import Mathlib.Data.Vector.Basic
import Udp2p.Lib.Bytes
import Udp2p.Utils.ByteRep

/-!
# Messages, packets and `packetize`

The data exchanged between nodes, and the function that splits a message into packets.

`packetize` is a loop over a pair of cursors that slices the message; a slice out of range panics,
so it returns an `Option`. `foldlM_chunkStep` says what the loop computes, `packetize_eq` what comes
of it, and `packetize_fragments` what the packets are: a *fragmentation* of the message, which is
all that reassembly relies on.
-/

namespace Udp2p

abbrev MessageData := List UInt8
abbrev RequestBytes := List UInt8
abbrev ResponseBytes := List UInt8
abbrev AddressBytes := List UInt8
abbrev InnerKey := List.Vector UInt8 32
abbrev ReturnReceipt := UInt8

/-- One numbered piece of a message, its bytes in hexadecimal. -/
structure Packet where
  id : InnerKey
  n : Nat
  totalN : Nat
  bytes : String
  ret : ReturnReceipt
  deriving DecidableEq

abbrev Packets := List Packet

/-- The receipt for one packet; `src` is the text of the acknowledging node's address. -/
structure AckMessage where
  packetId : InnerKey
  packetNumber : Nat
  src : AddressBytes
  deriving DecidableEq

inductive Header where
  | request
  | response
  | gossip
  | ack
  deriving DecidableEq

structure Message where
  head : Header
  msg : MessageData
  deriving DecidableEq

inductive KadMessage where
  | request (req : RequestBytes)
  | response (resp : ResponseBytes)
  | kill
  deriving DecidableEq

/-! ## `packetize` -/

/-- The cursors of the loop and the pieces pushed so far. -/
structure ChunkLoop where
  start : Nat
  stop : Nat
  chunks : List MessageData

/-- The loop body: the last round takes everything left, the others take `start..stop`. -/
def chunkStep (bytes : MessageData) (nPackets : Nat) (s : ChunkLoop) (n : Nat) :
    Option ChunkLoop :=
  if n = nPackets - 1 then do
    let chunk ← sliceFrom bytes s.start
    return { s with chunks := s.chunks ++ [chunk] }
  else do
    let chunk ← slice bytes s.start s.stop
    return { start := s.stop, stop := s.stop + 1024, chunks := s.chunks ++ [chunk] }

def packetize (hex : Hex) (bytes : MessageData) (id : InnerKey) (ret : ReturnReceipt) :
    Option Packets :=
  if bytes.length < 1024 then
    some [{ id, n := 1, totalN := 1, bytes := hex.encode bytes, ret }]
  else do
    let q := bytes.length / 1024
    -- the test is on the quotient, not on the length
    let nPackets := if q % 1024 ≠ 0 then q + 1 else q
    let s ← (List.range nPackets).foldlM (chunkStep bytes nPackets) ⟨0, 1024, []⟩
    return s.chunks.mapIdx fun idx chunk =>
      { id, n := idx + 1, totalN := s.chunks.length, bytes := hex.encode chunk, ret }

/-- The number of packets `packetize` makes. -/
def packetCount (bytes : MessageData) : Nat :=
  if bytes.length < 1024 then 1
  else if bytes.length / 1024 % 1024 ≠ 0 then bytes.length / 1024 + 1
  else bytes.length / 1024

theorem packetCount_pos (bytes : MessageData) : 0 < packetCount bytes := by
  grind [packetCount]

/-- All packets but the last lie inside the message: no slice is out of range. -/
theorem packetCount_fits (bytes : MessageData) :
    (packetCount bytes - 1) * 1024 ≤ bytes.length := by
  grind [packetCount]

/-- From round `i` on, the loop appends the rest of the message cut into pieces of 1024. -/
theorem foldlM_chunkStep (bytes : MessageData) (m i : Nat) (s : ChunkLoop)
    (hstop : s.stop = s.start + 1024) (hfit : s.start + m * 1024 ≤ bytes.length) :
    ∃ t, (List.range' i (m + 1)).foldlM (chunkStep bytes (i + m + 1)) s = some t ∧
      t.chunks = s.chunks ++ cut 1024 m (bytes.drop s.start) := by
  induction m generalizing i s with
  | zero =>
    -- the last round takes everything left
    refine ⟨{ s with chunks := s.chunks ++ [bytes.drop s.start] }, ?_, rfl⟩
    simp [List.range', chunkStep, sliceFrom_of_le (show s.start ≤ bytes.length by omega)]
  | succ m ih =>
    -- any other round cuts one piece off and moves both cursors
    have hslice : slice bytes s.start s.stop = some ((bytes.drop s.start).take 1024) := by
      rw [hstop]
      exact slice_of_le (by omega)
    have hround : chunkStep bytes (i + (m + 1) + 1) s i = some ⟨s.stop, s.stop + 1024,
        s.chunks ++ [(bytes.drop s.start).take 1024]⟩ := by
      simp [chunkStep, hslice]
    obtain ⟨t, ht, hchunks⟩ := ih (i + 1) ⟨s.stop, s.stop + 1024, _⟩ rfl
      (show s.stop + m * 1024 ≤ bytes.length by omega)
    refine ⟨t, ?_, ?_⟩
    · rw [List.range'_succ, List.foldlM_cons, hround]
      rw [show i + (m + 1) + 1 = i + 1 + m + 1 by omega]
      exact ht
    · rw [hchunks, cut, List.drop_drop, hstop]
      simp

/-- `packetize` in closed form, both branches at once. -/
theorem packetize_eq (hex : Hex) (bytes : MessageData) (id : InnerKey) (ret : ReturnReceipt) :
    packetize hex bytes id ret =
      some ((cut 1024 (packetCount bytes - 1) bytes).mapIdx fun idx chunk =>
        { id, n := idx + 1, totalN := packetCount bytes, bytes := hex.encode chunk, ret }) := by
  by_cases hlen : bytes.length < 1024
  · have hcount : packetCount bytes = 1 := by simp [packetCount, hlen]
    simp [packetize, hlen, hcount, cut]
  · obtain ⟨m, hm⟩ : ∃ m, packetCount bytes = m + 1 :=
      ⟨packetCount bytes - 1, by have := packetCount_pos bytes; omega⟩
    have hfit := packetCount_fits bytes
    rw [hm, Nat.add_sub_cancel] at hfit
    obtain ⟨t, ht, hchunks⟩ := foldlM_chunkStep bytes m 0 ⟨0, 1024, []⟩ rfl (by simpa using hfit)
    have hn : (if bytes.length / 1024 % 1024 ≠ 0 then bytes.length / 1024 + 1
        else bytes.length / 1024) = m + 1 := by
      rw [← hm, packetCount, if_neg hlen]
    rw [Nat.zero_add, ← List.range_eq_range'] at ht
    simp only [packetize, if_neg hlen, hn, ht, hm]
    simp [hchunks]

/-! ## The serialisers of the wire -/

/-- The code outside the repository that messages pass through: the hexadecimal encoding of packet
texts and the serialisers of the four types that travel. -/
structure Wire where
  hex : Hex
  packet : ByteRep Packet
  message : ByteRep Message
  ack : ByteRep AckMessage
  kad : ByteRep KadMessage

/-! ## What `serde_json` writes -/

/-- A number. -/
def jsonNat (n : Nat) : List UInt8 := (String.ofList (Nat.toDigits 10 n)).toUTF8.data.toList

/-- An array of bytes. -/
def jsonArray (data : List UInt8) : List UInt8 :=
  91 :: [44].intercalate (data.map fun b => jsonNat b.toNat) ++ [93]

/-- A packet whose text needs no escapes. -/
def packetJson (packet : Packet) : List UInt8 :=
  "\x7b\"id\":".toUTF8.data.toList ++ jsonArray packet.id.toList ++
    ",\"n\":".toUTF8.data.toList ++ jsonNat packet.n ++
    ",\"total_n\":".toUTF8.data.toList ++ jsonNat packet.totalN ++
    ",\"bytes\":\"".toUTF8.data.toList ++ packet.bytes.toUTF8.data.toList ++
    "\",\"ret\":".toUTF8.data.toList ++ jsonNat packet.ret.toNat ++ [125]

/-- A gossip message. -/
def gossipJson (data : MessageData) : List UInt8 :=
  "\x7b\"head\":\"Gossip\",\"msg\":".toUTF8.data.toList ++ jsonArray data ++ [125]

/-- An acknowledgement. -/
def ackJson (ack : AckMessage) : List UInt8 :=
  "\x7b\"packet_id\":".toUTF8.data.toList ++ jsonArray ack.packetId.toList ++
    ",\"packet_number\":".toUTF8.data.toList ++ jsonNat ack.packetNumber ++
    ",\"src\":".toUTF8.data.toList ++ jsonArray ack.src ++ [125]

/-! ## Fragmentations -/

/-- `packets` carry `bytes` under `id`: numbered from 1 in order, each knowing how many they are,
their texts decoding to pieces that join to `bytes`. -/
structure Fragments (hex : Hex) (id : InnerKey) (bytes : MessageData) (packets : Packets) :
    Prop where
  nonempty : packets ≠ []
  id_eq : ∀ p ∈ packets, p.id = id
  totalN_eq : ∀ p ∈ packets, p.totalN = packets.length
  numbers : packets.map Packet.n = List.range' 1 packets.length
  decode : ∃ chunks, packets.mapM (fun p => hex.decode p.bytes) = some chunks ∧
    chunks.flatten = bytes

theorem mapM_decode_mapIdx (hex : Hex) (chunks : List MessageData)
    (mk : Nat → MessageData → Packet) (hmk : ∀ i c, (mk i c).bytes = hex.encode c) :
    (chunks.mapIdx mk).mapM (fun p => hex.decode p.bytes) = some chunks := by
  induction chunks generalizing mk with
  | nil => rfl
  | cons c chunks ih =>
    rw [List.mapIdx_cons, List.mapM_cons, hmk, hex.decode_encode]
    rw [show (chunks.mapIdx fun i => mk (i + 1)).mapM (fun p => hex.decode p.bytes) = some chunks
      from ih (fun i => mk (i + 1)) fun i => hmk (i + 1)]
    rfl

namespace Fragments

variable {hex : Hex} {id : InnerKey} {bytes : MessageData} {packets : Packets}

/-- A packet is determined by its number. -/
theorem eq_of_n_eq (h : Fragments hex id bytes packets) {p q : Packet} (hp : p ∈ packets)
    (hq : q ∈ packets) (hn : p.n = q.n) : p = q := by
  have hnodup : (packets.map Packet.n).Nodup := h.numbers ▸ List.nodup_range'
  exact List.inj_on_of_nodup_map hnodup hp hq hn

/-- The packets bear exactly the numbers from 1 to their count. -/
theorem mem_numbers (h : Fragments hex id bytes packets) {n : Nat} :
    n ∈ List.range' 1 packets.length ↔ ∃ p ∈ packets, p.n = n := by
  rw [← h.numbers, List.mem_map]

end Fragments

/-- **`packetize` fragments.** It never slices out of range, and what it returns is a
fragmentation of the message under the id it was given. -/
theorem packetize_fragments (hex : Hex) (bytes : MessageData) (id : InnerKey)
    (ret : ReturnReceipt) :
    ∃ packets, packetize hex bytes id ret = some packets ∧ Fragments hex id bytes packets := by
  refine ⟨_, packetize_eq hex bytes id ret, ?_⟩
  have hpos := packetCount_pos bytes
  constructor
  · intro h
    have hlen := congrArg List.length h
    simp at hlen
  · intro p hp
    obtain ⟨i, hi, rfl⟩ := List.mem_mapIdx.mp hp
    rfl
  · intro p hp
    obtain ⟨i, hi, rfl⟩ := List.mem_mapIdx.mp hp
    simp only [List.length_mapIdx, length_cut]
    omega
  · apply List.ext_getElem
    · simp
    · intro i _ _
      simp [Nat.add_comm]
  · exact ⟨_, mapM_decode_mapIdx hex _ _ fun _ _ => rfl, flatten_cut _ _ _⟩

theorem fragments_of_packetize {hex : Hex} {bytes : MessageData} {id : InnerKey}
    {ret : ReturnReceipt} {packets : Packets} (h : packetize hex bytes id ret = some packets) :
    Fragments hex id bytes packets := by
  obtain ⟨packets', hsplit, hfrag⟩ := packetize_fragments hex bytes id ret
  rw [h, Option.some.injEq] at hsplit
  rw [hsplit]
  exact hfrag

end Udp2p
