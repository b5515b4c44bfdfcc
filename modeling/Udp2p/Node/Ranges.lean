import Udp2p.Node.Closeness
import Udp2p.Protocol.Packetize

/-!
# Do random keys land in the requested range?

`rand_in_range` fills a key with random bytes, clears the bits in front of a position and sets the
bit there. The random bytes are an argument, and `none` is a panic: an index or a shift out of
range.

* `randInRange_bits` — the bits in front are clear, the bit is set, and the others are random.
* `rand_in_range_lands` — so the keys returned are exactly those with that many leading zeros.
-/

namespace Udp2p

/-- `v[i] = byte`. -/
def store (v : InnerKey) (i : Nat) (byte : UInt8) : Option InnerKey :=
  if h : i < 32 then some (v.set ⟨i, h⟩ byte) else none

/-- `v[i]`. -/
def load (v : InnerKey) (i : Nat) : Option UInt8 :=
  if h : i < 32 then some (v.get ⟨i, h⟩) else none

/-- `byte >> n`; a shift by the width or more overflows. -/
def shrByte (byte : UInt8) (n : Nat) : Option UInt8 :=
  if n < 8 then some (byte >>> UInt8.ofNat n) else none

/-- `byte << n`. -/
def shlByte (byte : UInt8) (n : Nat) : Option UInt8 :=
  if n < 8 then some (byte <<< UInt8.ofNat n) else none

/-- What `rand_in_range` makes of a random key. -/
def randInRange (idx : Nat) (fill : InnerKey) : Option InnerKey := do
  let bytes := idx / 8
  let bit := idx % 8
  let ret ← (List.range bytes).foldlM (fun ret i => store ret i 0) fill
  let mask ← shrByte 0xFF bit
  let byte ← load ret bytes
  let ret ← store ret bytes (byte &&& mask)
  let one ← shlByte 1 (8 - bit - 1)
  let byte ← load ret bytes
  store ret bytes (byte ||| one)

def Key.randInRange (idx : Nat) (fill : InnerKey) : Option Key :=
  (Udp2p.randInRange idx fill).map Key.mk

def MessageKey.randInRange (idx : Nat) (fill : InnerKey) : Option InnerKey :=
  Udp2p.randInRange idx fill

/-- The bits of a key in front of a position are clear, and the bit there is set. -/
def ZerosBefore (v : InnerKey) (idx : Nat) : Prop :=
  (∀ i < idx, bitAt v.toList i = false) ∧ bitAt v.toList idx = true

/-! ## Bytes stored and loaded -/

/-- A store returns inside the array, and changes the bits of its byte. -/
theorem store_eq (v : InnerKey) {j : Nat} (hj : j < 32) (byte : UInt8) :
    ∃ v', store v j byte = some v' ∧ ∀ i, bitAt v'.toList i =
      if i / 8 = j then byte.toNat.testBit (7 - i % 8) else bitAt v.toList i := by
  refine ⟨v.set ⟨j, hj⟩ byte, dif_pos hj, fun i => ?_⟩
  have hlen : v.toList.length = 32 := v.toList_length
  rw [bitAt, bitAt, List.Vector.toList_set, List.getD_eq_getElem?_getD, List.getElem?_set]
  by_cases hi : i / 8 = j
  · rw [if_pos hi.symm, if_pos hi, if_pos (by rw [hlen]; exact hj), Option.getD_some]
  · rw [if_neg (Ne.symm hi), if_neg hi, ← List.getD_eq_getElem?_getD]

theorem load_eq (v : InnerKey) {j : Nat} (hj : j < 32) :
    ∃ byte, load v j = some byte ∧
      ∀ i, i / 8 = j → byte.toNat.testBit (7 - i % 8) = bitAt v.toList i := by
  refine ⟨v.get ⟨j, hj⟩, dif_pos hj, fun i hi => ?_⟩
  have hlen : j < v.toList.length := by
    rw [List.Vector.toList_length]
    exact hj
  rw [bitAt, hi, List.Vector.get_eq_get_toList, List.getD_eq_getElem?_getD,
    List.getElem?_eq_getElem hlen]
  rfl

/-- The loop clears the bytes in front. -/
theorem clear_eq (fill : InnerKey) {n : Nat} (hn : n ≤ 32) :
    ∃ ret, (List.range n).foldlM (fun ret i => store ret i 0) fill = some ret ∧
      ∀ i, bitAt ret.toList i = if i / 8 < n then false else bitAt fill.toList i := by
  induction n with
  | zero => exact ⟨fill, rfl, fun i => by simp⟩
  | succ n ih =>
    obtain ⟨ret, hret, hbits⟩ := ih (by omega)
    obtain ⟨ret', hret', hbits'⟩ := store_eq ret (j := n) (by omega) 0
    refine ⟨ret', ?_, fun i => ?_⟩
    · rw [List.range_succ, List.foldlM_append, hret]
      simp [hret']
    · rw [hbits', hbits]
      grind

/-- The masks: ones from the position on, and a one there. -/
theorem mask_eq {bit : Nat} (h : bit < 8) : ∃ mask, shrByte 0xFF bit = some mask ∧
    ∀ p < 8, mask.toNat.testBit (7 - p) = decide (bit ≤ p) := by
  refine ⟨_, if_pos h, ?_⟩
  revert bit
  decide

theorem one_eq {bit : Nat} (h : bit < 8) : ∃ one, shlByte 1 (8 - bit - 1) = some one ∧
    ∀ p < 8, one.toNat.testBit (7 - p) = decide (p = bit) := by
  refine ⟨_, if_pos (by omega), ?_⟩
  revert bit
  decide

/-- **`rand_in_range`**: the bits in front of the position are clear, the bit there is set, and the
others are those of the random key. -/
theorem randInRange_bits {idx : Nat} (hidx : idx < 256) (fill : InnerKey) :
    ∃ ret, randInRange idx fill = some ret ∧ ZerosBefore ret idx ∧
      ∀ i, idx < i → bitAt ret.toList i = bitAt fill.toList i := by
  have hbytes : idx / 8 < 32 := Nat.div_lt_of_lt_mul hidx
  have hbit : idx % 8 < 8 := Nat.mod_lt idx (by decide)
  obtain ⟨ret₁, hclear, hbits₁⟩ := clear_eq fill (Nat.le_of_lt hbytes)
  obtain ⟨mask, hmask, hmaskBits⟩ := mask_eq hbit
  obtain ⟨byte₁, hload₁, hbyte₁⟩ := load_eq ret₁ hbytes
  obtain ⟨ret₂, hstore₂, hbits₂⟩ := store_eq ret₁ hbytes (byte₁ &&& mask)
  obtain ⟨one, hone, honeBits⟩ := one_eq hbit
  obtain ⟨byte₂, hload₂, hbyte₂⟩ := load_eq ret₂ hbytes
  obtain ⟨ret, hstore, hbits⟩ := store_eq ret₂ hbytes (byte₂ ||| one)
  have hret : randInRange idx fill = some ret := by
    simp [randInRange, hclear, hmask, hload₁, hstore₂, hone, hload₂, hstore]
  -- bit by bit: cleared, masked, set
  have hall : ∀ i, bitAt ret.toList i =
      if i < idx then false else if i = idx then true else bitAt fill.toList i := by
    intro i
    rw [hbits]
    by_cases hi : i / 8 = idx / 8
    · have hp : i % 8 < 8 := Nat.mod_lt i (by decide)
      rw [if_pos hi, UInt8.toNat_or, Nat.testBit_or, hbyte₂ i hi, hbits₂, if_pos hi,
        UInt8.toNat_and, Nat.testBit_and, hbyte₁ i hi, hbits₁, hmaskBits _ hp, honeBits _ hp]
      grind
    · rw [if_neg hi, hbits₂, if_neg hi, hbits₁]
      grind
  refine ⟨ret, hret, ⟨fun i hi => ?_, ?_⟩, fun i hi => ?_⟩
  · rw [hall, if_pos hi]
  · rw [hall, if_neg (Nat.lt_irrefl _), if_pos rfl]
  · rw [hall, if_neg (by omega), if_neg (by omega)]

/-- A key that is clear in front of the position and set there stays as it is. -/
theorem randInRange_self {idx : Nat} (hidx : idx < 256) {v : InnerKey} (h : ZerosBefore v idx) :
    randInRange idx v = some v := by
  obtain ⟨ret, hret, ⟨hzeros, hone⟩, hrest⟩ := randInRange_bits hidx v
  have hsame : ret.toList = v.toList := by
    apply eq_of_bits
    · rw [List.Vector.toList_length, List.Vector.toList_length]
    · intro i _
      rcases Nat.lt_trichotomy i idx with hlt | rfl | hgt
      · rw [hzeros i hlt, h.1 i hlt]
      · rw [hone, h.2]
      · exact hrest i hgt
  rw [hret, List.Vector.toList_injective hsame]

/-- The leading zeros of a key, exactly. -/
theorem Key.leadingZeros_eq_iff {k : Key} {idx : Nat} (hidx : idx < 256) :
    k.leadingZeros = idx ↔ ZerosBefore k.bytes idx := by
  have hle := Key.le_leadingZeros_iff (k := k) (Nat.le_of_lt hidx)
  have hlt := Key.le_leadingZeros_iff (k := k) (m := idx + 1) hidx
  rw [Nat.forall_lt_succ_right, ← hle] at hlt
  rw [ZerosBefore, ← show k.bit = bitAt k.bytes.toList from rfl, ← hle]
  grind

/-- **Random keys land in the requested range**: for every position and random key, a key is
returned, with exactly so many leading zeros, a one, and random bits; and every key with so many
leading zeros is returned for some random key. -/
theorem rand_in_range_lands {idx : Nat} (hidx : idx < 256) :
    (∀ fill, ∃ k, Key.randInRange idx fill = some k ∧ k.leadingZeros = idx ∧
      ∀ i, idx < i → k.bit i = bitAt fill.toList i) ∧
    (∀ fill, ∃ k, MessageKey.randInRange idx fill = some k ∧ ZerosBefore k idx ∧
      ∀ i, idx < i → bitAt k.toList i = bitAt fill.toList i) ∧
    (∀ k : Key, k.leadingZeros = idx → ∃ fill, Key.randInRange idx fill = some k) ∧
    ∀ k, ZerosBefore k idx → ∃ fill, MessageKey.randInRange idx fill = some k := by
  refine ⟨fun fill => ?_, randInRange_bits hidx, fun k hk => ?_, fun k hk => ?_⟩
  · obtain ⟨ret, hret, hzeros, hrest⟩ := randInRange_bits hidx fill
    refine ⟨⟨ret⟩, ?_, (Key.leadingZeros_eq_iff hidx).mpr hzeros, hrest⟩
    rw [Key.randInRange, hret]
    rfl
  · refine ⟨k.bytes, ?_⟩
    rw [Key.randInRange, randInRange_self hidx ((Key.leadingZeros_eq_iff hidx).mp hk)]
    rfl
  · exact ⟨k, randInRange_self hidx hk⟩

/-- A position inside a byte. -/
theorem rand_in_range_lands_at_thirteen :
    (∀ fill, ∃ k, Key.randInRange 13 fill = some k ∧ k.leadingZeros = 13 ∧
      ∀ i, 13 < i → k.bit i = bitAt fill.toList i) ∧
    (∀ fill, ∃ k, MessageKey.randInRange 13 fill = some k ∧ ZerosBefore k 13 ∧
      ∀ i, 13 < i → bitAt k.toList i = bitAt fill.toList i) ∧
    (∀ k : Key, k.leadingZeros = 13 → ∃ fill, Key.randInRange 13 fill = some k) ∧
    ∀ k, ZerosBefore k 13 → ∃ fill, MessageKey.randInRange 13 fill = some k :=
  rand_in_range_lands (by decide)

end Udp2p
