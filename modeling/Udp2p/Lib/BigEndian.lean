import Mathlib.Data.List.Lex
import Mathlib.Data.Nat.Digits.Defs
import Udp2p.Lib.Bytes

/-!
# Byte strings as numbers

`bigEndian` reads a byte string as a number, most significant byte first.

* `bigEndian_lt_iff` — strings of one length compare as numbers as they do byte by byte.
* `testBit_bigEndian`, `zeros_iff` — the bits of the string are those of the number, and it starts
  with `m` zeros iff the number is that small.
* `bitAt_xor` — the bits of a bytewise XOR.
-/

namespace Udp2p

/-- The number a byte string spells, most significant byte first. -/
def bigEndian (l : List UInt8) : Nat := Nat.ofDigits 256 (l.reverse.map UInt8.toNat)

theorem bigEndian_cons (b : UInt8) (l : List UInt8) :
    bigEndian (b :: l) = 2 ^ (8 * l.length) * b.toNat + bigEndian l := by
  have hpow : 256 ^ l.length = 2 ^ (8 * l.length) := by
    rw [Nat.pow_mul]
  rw [bigEndian, List.reverse_cons, List.map_append, Nat.ofDigits_append, List.length_map,
    List.length_reverse, List.map_singleton, Nat.ofDigits_singleton, hpow, Nat.add_comm]
  rfl

theorem bigEndian_singleton (b : UInt8) : bigEndian [b] = b.toNat := by
  rw [bigEndian_cons, List.length_nil, Nat.mul_zero, Nat.pow_zero, Nat.one_mul]
  rfl

theorem bigEndian_lt (l : List UInt8) : bigEndian l < 2 ^ (8 * l.length) := by
  induction l with
  | nil => exact Nat.one_pos
  | cons b l ih =>
    have hb : b.toNat < 2 ^ 8 := b.toNat_lt
    rw [bigEndian_cons, List.length_cons, Nat.mul_succ, Nat.pow_add]
    calc 2 ^ (8 * l.length) * b.toNat + bigEndian l
        < 2 ^ (8 * l.length) * b.toNat + 2 ^ (8 * l.length) := Nat.add_lt_add_left ih _
      _ = 2 ^ (8 * l.length) * (b.toNat + 1) := (Nat.mul_succ _ _).symm
      _ ≤ 2 ^ (8 * l.length) * 2 ^ 8 := Nat.mul_le_mul_left _ hb

/-- The first bytes decide, unless they are the same. -/
theorem bigEndian_lt_iff {l l' : List UInt8} (hlen : l.length = l'.length) :
    bigEndian l < bigEndian l' ↔ l.map UInt8.toNat < l'.map UInt8.toNat := by
  induction l generalizing l' with
  | nil =>
    rw [List.length_nil, eq_comm, List.length_eq_zero_iff] at hlen
    subst hlen
    simp
  | cons b l ih =>
    obtain ⟨b', l', rfl⟩ := List.exists_cons_of_length_eq_add_one hlen.symm
    have hlen' : l.length = l'.length := Nat.succ.inj hlen
    have hl := bigEndian_lt l
    have hl' := bigEndian_lt l'
    rw [bigEndian_cons, bigEndian_cons, List.map_cons, List.map_cons, List.cons_lt_cons_iff,
      ← ih hlen', ← hlen']
    rw [← hlen'] at hl'
    rcases Nat.lt_trichotomy b.toNat b'.toNat with hlt | heq | hgt
    · have hstep := Nat.mul_le_mul_left (2 ^ (8 * l.length)) hlt
      rw [Nat.mul_succ] at hstep
      exact iff_of_true (by omega) (Or.inl hlt)
    · rw [heq]
      simp
    · have hstep := Nat.mul_le_mul_left (2 ^ (8 * l.length)) hgt
      rw [Nat.mul_succ] at hstep
      exact iff_of_false (by omega) (by omega)

theorem bigEndian_inj {l l' : List UInt8} (hlen : l.length = l'.length)
    (h : bigEndian l = bigEndian l') : l = l' := by
  have hdigit : ∀ m : List UInt8, ∀ d ∈ m.reverse.map UInt8.toNat, d < 256 := by
    intro m d hd
    obtain ⟨b, -, rfl⟩ := List.mem_map.mp hd
    exact b.toNat_lt
  have hsame := Nat.ofDigits_inj_of_len_eq (by decide) (by simpa using hlen) (hdigit l)
    (hdigit l') h
  apply List.reverse_injective
  exact List.map_injective_iff.mpr (fun _ _ => UInt8.toNat_inj.mp) hsame

/-! ## Bits -/

/-- Bit 0 of the string is the most significant bit of the number. -/
theorem testBit_bigEndian (l : List UInt8) {i : Nat} (h : i < 8 * l.length) :
    (bigEndian l).testBit (8 * l.length - 1 - i) = bitAt l i := by
  induction l generalizing i with
  | nil => exact absurd h (Nat.not_lt_zero i)
  | cons b l ih =>
    rw [List.length_cons, Nat.mul_succ] at h
    rw [bigEndian_cons, Nat.testBit_two_pow_mul_add _ (bigEndian_lt l), List.length_cons,
      Nat.mul_succ]
    by_cases hi : i < 8
    · rw [if_neg (by omega), bitAt_cons_of_lt b l hi]
      congr 1
      omega
    · obtain ⟨j, rfl⟩ := Nat.exists_eq_add_of_le (Nat.le_of_not_lt hi)
      rw [if_pos (by omega), bitAt_cons_add, ← ih (by omega)]
      congr 1
      omega

/-- **Leading zeros are smallness.** -/
theorem zeros_iff {l : List UInt8} {m : Nat} (hm : m ≤ 8 * l.length) :
    (∀ i < m, bitAt l i = false) ↔ bigEndian l < 2 ^ (8 * l.length - m) := by
  constructor
  · intro h
    apply Nat.lt_pow_two_of_testBit
    intro j hj
    by_cases hlt : j < 8 * l.length
    · rw [show j = 8 * l.length - 1 - (8 * l.length - 1 - j) by omega,
        testBit_bigEndian l (by omega)]
      exact h _ (by omega)
    · apply Nat.testBit_lt_two_pow
      exact (bigEndian_lt l).trans_le (Nat.pow_le_pow_right Nat.two_pos (Nat.le_of_not_lt hlt))
  · intro h i hi
    rw [← testBit_bigEndian l (by omega)]
    apply Nat.testBit_lt_two_pow
    exact h.trans_le (Nat.pow_le_pow_right Nat.two_pos (by omega))

/-- Strings of one length are their bits. -/
theorem eq_of_bits {l l' : List UInt8} (hlen : l.length = l'.length)
    (h : ∀ i < 8 * l.length, bitAt l i = bitAt l' i) : l = l' := by
  apply bigEndian_inj hlen
  apply Nat.eq_of_testBit_eq
  intro j
  by_cases hlt : j < 8 * l.length
  · rw [show j = 8 * l.length - 1 - (8 * l.length - 1 - j) by omega,
      testBit_bigEndian l (by omega), h _ (by omega), hlen, testBit_bigEndian l' (by omega)]
  · -- past the end there are no bits in either
    have hlarge := Nat.pow_le_pow_right Nat.two_pos (Nat.le_of_not_lt hlt)
    have hl := bigEndian_lt l'
    rw [← hlen] at hl
    rw [Nat.testBit_lt_two_pow ((bigEndian_lt l).trans_le hlarge),
      Nat.testBit_lt_two_pow (hl.trans_le hlarge)]

/-- The bits of a bytewise XOR. -/
theorem bitAt_xor {l l' : List UInt8} (hlen : l.length = l'.length) (i : Nat) :
    bitAt (List.zipWith (· ^^^ ·) l l') i = (bitAt l i ^^ bitAt l' i) := by
  induction l generalizing l' i with
  | nil =>
    rw [List.length_nil, eq_comm, List.length_eq_zero_iff] at hlen
    subst hlen
    simp [bitAt]
  | cons b l ih =>
    obtain ⟨b', l', rfl⟩ := List.exists_cons_of_length_eq_add_one hlen.symm
    rw [List.zipWith_cons_cons]
    by_cases hi : i < 8
    · simp only [bitAt_cons_of_lt _ _ hi, UInt8.toNat_xor, Nat.testBit_xor]
    · obtain ⟨j, rfl⟩ := Nat.exists_eq_add_of_le (Nat.le_of_not_lt hi)
      rw [bitAt_cons_add, bitAt_cons_add, bitAt_cons_add]
      exact ih (Nat.succ.inj hlen) j

end Udp2p
