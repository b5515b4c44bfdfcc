import Udp2p.Protocol.Packetize

/-!
# Does `packetize` split tightly?

A tight split has as many packets as the message has begun kilobytes, all of them full but perhaps
the last, and none empty. `packetize` rounds the quotient up by testing the quotient instead of the
length, so it makes one packet too many at multiples of 1024 bytes and one too few where the
quotient is a multiple of 1024.

* `packetize_tight_iff` — the split is tight iff the test on the quotient agrees with the one on the
  length.
* `two_packets_for_one_kilobyte` — 1024 bytes are split into a full packet and an empty one.
-/

namespace Udp2p

/-- As few packets as the chunk size allows: all but the last carry 1024 bytes, the last at most as
many and, unless the message is empty, at least one. -/
structure Tight (hex : Hex) (bytes : MessageData) (packets : Packets) : Prop where
  count : packets.length = max 1 ((bytes.length + 1023) / 1024)
  payloads : ∃ chunks, packets.mapM (fun p => hex.decode p.bytes) = some chunks ∧
    (∀ c ∈ chunks.dropLast, c.length = 1024) ∧
    ∀ c ∈ chunks.getLast?, c.length ≤ 1024 ∧ (0 < bytes.length → 1 ≤ c.length)

/-- The number of packets is right iff the two tests agree. -/
theorem packetCount_tight_iff (bytes : MessageData) :
    packetCount bytes = max 1 ((bytes.length + 1023) / 1024) ↔ bytes.length < 1024 ∨
      (bytes.length / 1024 % 1024 ≠ 0 ↔ bytes.length % 1024 ≠ 0) := by
  unfold packetCount
  by_cases hlt : bytes.length < 1024
  · rw [if_pos hlt]
    omega
  · rw [if_neg hlt]
    -- rounding up adds one to the quotient iff something is left over
    have hceil : (bytes.length + 1023) / 1024 =
        bytes.length / 1024 + if bytes.length % 1024 ≠ 0 then 1 else 0 := by
      split <;> omega
    rw [hceil]
    by_cases hq : bytes.length / 1024 % 1024 ≠ 0 <;> by_cases hr : bytes.length % 1024 ≠ 0
    · simp only [if_pos hq, if_pos hr]
      omega
    · simp only [if_pos hq, if_neg hr]
      omega
    · simp only [if_neg hq, if_pos hr]
      omega
    · simp only [if_neg hq, if_neg hr]
      omega

/-- With the right number of packets, what is left for the last fits into it. -/
theorem length_last_of_count {bytes : MessageData}
    (h : packetCount bytes = max 1 ((bytes.length + 1023) / 1024)) :
    (bytes.drop ((packetCount bytes - 1) * 1024)).length ≤ 1024 ∧
      (0 < bytes.length → 1 ≤ (bytes.drop ((packetCount bytes - 1) * 1024)).length) := by
  rw [List.length_drop, h]
  omega

/-- The packets are a tight split iff there are as many as there should be. -/
theorem tight_iff_packetCount {hex : Hex} {bytes : MessageData} {id : InnerKey}
    {ret : ReturnReceipt} {packets : Packets} (h : packetize hex bytes id ret = some packets) :
    Tight hex bytes packets ↔ packetCount bytes = max 1 ((bytes.length + 1023) / 1024) := by
  rw [packetize_eq, Option.some.injEq] at h
  subst h
  have hpos := packetCount_pos bytes
  have hlen : ((cut 1024 (packetCount bytes - 1) bytes).mapIdx fun idx chunk =>
      ({ id, n := idx + 1, totalN := packetCount bytes, bytes := hex.encode chunk, ret } : Packet)
      ).length = packetCount bytes := by
    rw [List.length_mapIdx, length_cut]
    omega
  constructor
  · intro h
    exact hlen.symm.trans h.count
  · intro h
    refine ⟨hlen.trans h, _, mapM_decode_mapIdx hex _ _ fun _ _ => rfl,
      length_of_mem_dropLast_cut (packetCount_fits bytes), ?_⟩
    rw [getLast?_cut]
    intro c hc
    cases hc
    exact length_last_of_count h

/-- **`packetize` splits tightly**, exactly: when the message has less than 1024 bytes, or its
length is a multiple of 1024 just if the quotient is one. -/
theorem packetize_tight_iff (hex : Hex) (bytes : MessageData) (id : InnerKey)
    (ret : ReturnReceipt) : ∃ packets, packetize hex bytes id ret = some packets ∧
      (Tight hex bytes packets ↔ bytes.length < 1024 ∨
        (bytes.length / 1024 % 1024 ≠ 0 ↔ bytes.length % 1024 ≠ 0)) := by
  refine ⟨_, packetize_eq hex bytes id ret, ?_⟩
  rw [tight_iff_packetCount (packetize_eq hex bytes id ret), packetCount_tight_iff]

/-- A kilobyte of zeros. -/
def oneKilobyte : MessageData := List.replicate 1024 0

theorem length_oneKilobyte : oneKilobyte.length = 1024 := by
  rw [oneKilobyte, List.length_replicate]

theorem two_packets_for_one_kilobyte :
    ¬ ∀ hex bytes id ret packets, packetize hex bytes id ret = some packets →
      Tight hex bytes packets := by
  intro hall
  have hsplit := packetize_eq Hex.standard oneKilobyte (List.Vector.replicate 32 0) 1
  have hcount := (tight_iff_packetCount hsplit).mp (hall _ _ _ _ _ hsplit)
  rw [packetCount, length_oneKilobyte] at hcount
  exact absurd hcount (by decide)

end Udp2p
