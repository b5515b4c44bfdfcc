import Udp2p.Lib.BigEndian
import Udp2p.Node.Prefixes

/-!
# Does `leading_zeros` measure closeness?

The loop of `leading_zeros` counts in bytes and returns in the first byte that is not zero. Bit by
bit, it finds at least `m` zeros iff the first `m` bits are zero (`le_leadingZeros_iff`), so the
count bounds the key as a number, and that is the order keys are compared in.

* `lt_iff_toNat_lt` — the derived order is the order of the numbers.
* `leadingZeros_measures_closeness` — smaller distances have more leading zeros, and zeros are
  shared along a detour.
-/

namespace Udp2p

namespace Key

/-- The key read as a big-endian 256-bit number. -/
def toNat (k : Key) : Nat := bigEndian k.bytes.toList

/-- The bytes are compared one after another, and so are the numbers. -/
theorem lt_iff_toNat_lt (k k' : Key) : k < k' ↔ k.toNat < k'.toNat := by
  rw [toNat, toNat, bigEndian_lt_iff (by rw [List.Vector.toList_length, List.Vector.toList_length])]
  rfl

theorem bit_xor (k k' : Key) (i : Nat) : (k.xor k').bit i = (k.bit i ^^ k'.bit i) := by
  rw [bit, xor, List.Vector.zipWith_toList]
  apply bitAt_xor
  rw [List.Vector.toList_length, List.Vector.toList_length]

/-- The leading zeros of a byte, as a bound. -/
theorem le_byteLeadingZeros_iff {byte : UInt8} {m : Nat} (hm : m ≤ 8) :
    m ≤ byteLeadingZeros byte ↔ byte.toNat < 2 ^ (8 - m) := by
  unfold byteLeadingZeros
  split
  · next hzero =>
    subst hzero
    exact iff_of_true hm (Nat.two_pow_pos _)
  · next hne =>
    have hpos : byte.toNat ≠ 0 := fun h => hne (UInt8.toNat_inj.mp h)
    have hlog : Nat.log2 byte.toNat < 8 := (Nat.log2_lt hpos).mpr byte.toNat_lt
    rw [← Nat.log2_lt hpos]
    omega

theorem byteLeadingZeros_le (byte : UInt8) : byteLeadingZeros byte ≤ 8 := by
  unfold byteLeadingZeros
  split <;> omega

theorem byteLeadingZeros_lt {byte : UInt8} (h : byte ≠ 0) : byteLeadingZeros byte < 8 := by
  rw [byteLeadingZeros, if_neg h]
  omega

/-- **The loop**, bit by bit. -/
theorem le_leadingZerosFrom_iff {l : List UInt8} {n m : Nat} (hm : m ≤ 8 * l.length) :
    n + m ≤ leadingZerosFrom n l ↔ ∀ i < m, bitAt l i = false := by
  induction l generalizing n m with
  | nil =>
    obtain rfl : m = 0 := Nat.eq_zero_of_le_zero hm
    simp [leadingZerosFrom]
  | cons byte l ih =>
    rw [List.length_cons, Nat.mul_succ] at hm
    rw [leadingZerosFrom]
    split
    · next hzero =>
      subst hzero
      -- eight zeros, and those of the other bytes
      have hfirst : ∀ i < 8, bitAt (0 :: l) i = false := fun i hi => by
        rw [bitAt_cons_of_lt _ _ hi]
        exact Nat.zero_testBit _
      rcases Nat.le_total m 8 with hle | hge
      · refine iff_of_true ?_ fun i hi => hfirst i (hi.trans_le hle)
        have hmore := (ih (n := n + 8) (m := 0) (Nat.zero_le _)).mpr fun i hi => nomatch hi
        omega
      · obtain ⟨m', rfl⟩ := Nat.exists_eq_add_of_le hge
        rw [← Nat.add_assoc, ih (by omega)]
        constructor
        · intro h i hi
          by_cases hi8 : i < 8
          · exact hfirst i hi8
          · obtain ⟨j, rfl⟩ := Nat.exists_eq_add_of_le (Nat.le_of_not_lt hi8)
            rw [bitAt_cons_add]
            exact h j (by omega)
        · intro h i hi
          rw [← bitAt_cons_add 0 l i]
          exact h (8 + i) (by omega)
    · next hne =>
      -- the first one is in this byte
      have hlt := byteLeadingZeros_lt hne
      rw [Nat.add_le_add_iff_left]
      have hbyte : ∀ m ≤ 8, m ≤ byteLeadingZeros byte ↔ ∀ i < m, bitAt (byte :: l) i = false := by
        intro m hm8
        have hone := zeros_iff (l := [byte]) (m := m) hm8
        rw [bigEndian_singleton, List.length_singleton, Nat.mul_one] at hone
        rw [le_byteLeadingZeros_iff hm8, ← hone]
        refine forall₂_congr fun i hi => ?_
        rw [bitAt_cons_of_lt _ _ (by omega), bitAt_cons_of_lt _ _ (by omega)]
      rcases Nat.le_total m 8 with hle | hge
      · exact hbyte m hle
      · have hnot := (hbyte 8 le_rfl).not.mp (by omega)
        refine iff_of_false (by omega) fun h => hnot fun i hi => h i (by omega)

/-- **At least `m` leading zeros** are `m` zero bits. -/
theorem le_leadingZeros_iff {k : Key} {m : Nat} (hm : m ≤ 256) :
    m ≤ k.leadingZeros ↔ ∀ i < m, k.bit i = false := by
  have h := le_leadingZerosFrom_iff (l := k.bytes.toList) (n := 0) (m := m)
    (by rw [List.Vector.toList_length]; exact hm)
  rw [Nat.zero_add] at h
  exact h

theorem le_leadingZeros_iff_lt {k : Key} {m : Nat} (hm : m ≤ 256) :
    m ≤ k.leadingZeros ↔ k.toNat < 2 ^ (256 - m) := by
  have h := zeros_iff (l := k.bytes.toList) (m := m)
    (by rw [List.Vector.toList_length]; exact hm)
  rw [List.Vector.toList_length] at h
  exact (le_leadingZeros_iff hm).trans h

theorem leadingZerosFrom_le (n : Nat) (l : List UInt8) :
    leadingZerosFrom n l ≤ n + 8 * l.length := by
  induction l generalizing n with
  | nil => exact le_rfl
  | cons byte l ih =>
    rw [leadingZerosFrom, List.length_cons, Nat.mul_succ]
    split
    · have hrest := ih (n + 8)
      omega
    · have hbyte := byteLeadingZeros_le byte
      omega

theorem leadingZeros_le (k : Key) : k.leadingZeros ≤ 256 := by
  have h := leadingZerosFrom_le 0 k.bytes.toList
  rw [List.Vector.toList_length] at h
  exact h

/-- **More zeros are a smaller number.** -/
theorem lt_of_leadingZeros_lt {k k' : Key} (h : k'.leadingZeros < k.leadingZeros) : k < k' := by
  have hm : k'.leadingZeros + 1 ≤ 256 := h.trans_le k.leadingZeros_le
  have hsmall := (le_leadingZeros_iff_lt hm).mp h
  have hlarge := (le_leadingZeros_iff_lt hm).not.mp (Nat.not_succ_le_self _)
  rw [lt_iff_toNat_lt]
  omega

/-- What agrees with a middle key on both sides agrees. -/
theorem min_leadingZeros_le (a b c : Key) :
    min (a.xor b).leadingZeros (b.xor c).leadingZeros ≤ (a.xor c).leadingZeros := by
  have hm : min (a.xor b).leadingZeros (b.xor c).leadingZeros ≤ 256 :=
    (Nat.min_le_left _ _).trans (leadingZeros_le _)
  rw [le_leadingZeros_iff hm]
  intro i hi
  have hab := (le_leadingZeros_iff hm).mp (Nat.min_le_left _ _) i hi
  have hbc := (le_leadingZeros_iff hm).mp (Nat.min_le_right _ _) i hi
  rw [bit_xor] at hab hbc ⊢
  grind

/-- **`leading_zeros` measures closeness**: it bounds a key as a number, and keys are ordered as
numbers; so a longer common prefix with a key is a smaller distance, and two keys share with each
other what both share with a third. -/
theorem leadingZeros_measures_closeness :
    (∀ k k' : Key, k < k' ↔ k.toNat < k'.toNat) ∧
    (∀ (d : Key) (m : Nat), m ≤ 256 → (m ≤ d.leadingZeros ↔ d.toNat < 2 ^ (256 - m))) ∧
    (∀ a b t : Key, (b.xor t).leadingZeros < (a.xor t).leadingZeros → a.xor t < b.xor t) ∧
    ∀ a b c : Key,
      min (a.xor b).leadingZeros (b.xor c).leadingZeros ≤ (a.xor c).leadingZeros :=
  ⟨lt_iff_toNat_lt, fun _ _ hm => le_leadingZeros_iff_lt hm, fun _ _ _ h => lt_of_leadingZeros_lt h,
    min_leadingZeros_le⟩

end Key

end Udp2p
