import Udp2p.Lib.Bytes
import Udp2p.Node.Peer

/-!
# Are bucket prefixes bit prefixes?

The names of buckets are meant to be the leading bits of a distance. The string they are sliced from
writes each byte without leading zeros, so its digits stand where the bits do only up to the first
byte below 128, the bytes that take fewer than eight digits.

* `getPrefix_of_topBits` — as far as the top bits of the bytes are set, prefixes are bit prefixes.
* `prefixes_are_bits_iff` — for two keys, prefixes of all lengths are bit prefixes iff the top bits
  of all their bytes are set.
* `one_digit_two_bits` — a key that starts with the bit 1 and one that starts with the bit 0 have
  the same first digit.
-/

namespace Udp2p

namespace Key

/-- The `i`-th most significant bit of a key. -/
def bit (k : Key) (i : Nat) : Bool := bitAt k.bytes.toList i

/-- `get_prefix(n)` returns `n + 1` binary digits. -/
def HasPrefix (k : Key) (n : Nat) : Prop :=
  ∃ pre, k.getPrefix n = some pre ∧ pre.length = n + 1 ∧ ∀ c ∈ pre, c = '0' ∨ c = '1'

/-- The prefixes of two keys for size `n` are there, and are equal iff the keys agree on their
`n + 1` most significant bits. -/
structure BitPrefixed (a b : Key) (n : Nat) : Prop where
  left : a.HasPrefix n
  right : b.HasPrefix n
  agree : a.getPrefix n = b.getPrefix n ↔ ∀ i ≤ n, a.bit i = b.bit i

/-- The byte takes eight digits. -/
def TopBit (byte : UInt8) : Prop := 128 ≤ byte.toNat

instance : DecidablePred TopBit := fun byte => inferInstanceAs (Decidable (128 ≤ byte.toNat))

/-! ## The digits of a byte -/

/-- With the top bit set, the digits written are the bits. -/
theorem toDigits_of_topBit {byte : UInt8} (h : TopBit byte) :
    Nat.toDigits 2 byte.toNat = byteDigits byte := by
  have hall : ∀ n < 256, 128 ≤ n →
      Nat.toDigits 2 n = (List.range 8).map fun i => bitDigit (n.testBit (7 - i)) := by
    decide +kernel
  exact hall _ byte.toNat_lt h

theorem topBit_of_length {byte : UInt8} (h : (Nat.toDigits 2 byte.toNat).length = 8) :
    TopBit byte := by
  by_contra hnot
  have hlt : byte.toNat < 2 ^ 7 := Nat.lt_of_not_le hnot
  have hshort := (Nat.length_toDigits_le_iff (b := 2) (k := 7) (by decide) (by decide)).mpr hlt
  omega

theorem digit_of_mem_toDigits {n : Nat} {c : Char} (hc : c ∈ Nat.toDigits 2 n) :
    c = '0' ∨ c = '1' := by
  -- the last digit is the remainder, the others are those of the half
  induction n using Nat.strongRecOn with
  | _ n ih =>
    rcases Nat.lt_or_ge n 2 with hlt | hge
    · rw [Nat.toDigits_of_lt_base hlt, List.mem_singleton] at hc
      rcases Nat.le_one_iff_eq_zero_or_eq_one.mp (Nat.le_of_lt_succ hlt) with rfl | rfl
      · exact Or.inl hc
      · exact Or.inr hc
    · rw [Nat.toDigits_of_base_le (by decide) hge, List.mem_append, List.mem_singleton] at hc
      rcases hc with hc | rfl
      · exact ih (n / 2) (by omega) hc
      · rcases Nat.mod_two_eq_zero_or_one n with hmod | hmod
        · exact Or.inl (by rw [hmod]; rfl)
        · exact Or.inr (by rw [hmod]; rfl)

theorem digit_of_mem_getBinary {k : Key} {c : Char} (hc : c ∈ k.getBinary) : c = '0' ∨ c = '1' := by
  obtain ⟨byte, -, hmem⟩ := List.mem_flatMap.mp hc
  exact digit_of_mem_toDigits hmem

/-! ## The digits of a key -/

/-- As long as the top bits are set, the digits written are the bits of the string. -/
theorem take_digits_of_topBits {l : List UInt8} {n m : Nat} (hm : m ≤ l.length)
    (htop : ∀ byte ∈ l.take m, TopBit byte) (hn : n < 8 * m) :
    n < (l.flatMap fun byte => Nat.toDigits 2 byte.toNat).length ∧
      (l.flatMap fun byte => Nat.toDigits 2 byte.toNat).take (n + 1) =
        (List.range (n + 1)).map fun i => bitDigit (bitAt l i) := by
  have hdigits : (l.take m).flatMap (fun byte => Nat.toDigits 2 byte.toNat) =
      (l.take m).flatMap byteDigits :=
    List.flatMap_congr fun byte hbyte => toDigits_of_topBit (htop byte hbyte)
  have hlen : ((l.take m).flatMap byteDigits).length = 8 * m := by
    rw [flatMap_byteDigits, List.length_map, List.length_range, List.length_take,
      Nat.min_eq_left hm]
  have hsplit : ∀ f : UInt8 → List Char,
      l.flatMap f = (l.take m).flatMap f ++ (l.drop m).flatMap f := by
    intro f
    rw [← List.flatMap_append, List.take_append_drop]
  constructor
  · rw [hsplit, hdigits, List.length_append, hlen]
    omega
  · -- the prefix lies within the digits of the first `m` bytes
    calc (l.flatMap fun byte => Nat.toDigits 2 byte.toNat).take (n + 1)
        = ((l.take m).flatMap byteDigits).take (n + 1) := by
          rw [hsplit, hdigits, List.take_append_of_le_length (by omega)]
      _ = (l.flatMap byteDigits).take (n + 1) := by
          rw [hsplit byteDigits, List.take_append_of_le_length (by omega)]
      _ = (List.range (n + 1)).map fun i => bitDigit (bitAt l i) := by
          rw [flatMap_byteDigits, ← List.map_take, List.take_range, Nat.min_eq_left (by omega)]

/-- **Prefixes of a key** whose first bytes have their top bits set. -/
theorem getPrefix_of_topBits {k : Key} {n : Nat} (hn : n ≤ 255)
    (htop : ∀ byte ∈ k.bytes.toList.take (n / 8 + 1), TopBit byte) :
    k.getPrefix n = some ((List.range (n + 1)).map fun i => bitDigit (k.bit i)) := by
  have hlen : n / 8 + 1 ≤ k.bytes.toList.length := by
    rw [List.Vector.toList_length]
    omega
  obtain ⟨hlt, htake⟩ := take_digits_of_topBits hlen htop (show n < 8 * (n / 8 + 1) by omega)
  rw [getPrefix_eq, getBinary, if_pos hlt, htake]
  rfl

theorem HasPrefix.of_eq_some {k : Key} {n : Nat} {pre : List Char}
    (h : k.getPrefix n = some pre) (hlen : pre.length = n + 1) : k.HasPrefix n := by
  refine ⟨pre, h, hlen, fun c hc => ?_⟩
  rw [getPrefix_eq] at h
  split at h
  · cases h
    exact digit_of_mem_getBinary (List.mem_of_mem_take hc)
  · cases h

theorem bitPrefixed_of_topBits {a b : Key} {n : Nat} (hn : n ≤ 255)
    (ha : ∀ byte ∈ a.bytes.toList.take (n / 8 + 1), TopBit byte)
    (hb : ∀ byte ∈ b.bytes.toList.take (n / 8 + 1), TopBit byte) : BitPrefixed a b n where
  left := .of_eq_some (getPrefix_of_topBits hn ha) (by simp)
  right := .of_eq_some (getPrefix_of_topBits hn hb) (by simp)
  agree := by
    rw [getPrefix_of_topBits hn ha, getPrefix_of_topBits hn hb, Option.some.injEq,
      List.map_inj_left]
    simp only [List.mem_range, Nat.lt_succ_iff, bitDigit_inj]

/-- The longest prefix is there only if every byte takes eight digits. -/
theorem topBits_of_hasPrefix {k : Key} (h : k.HasPrefix 255) :
    ∀ byte ∈ k.bytes.toList, TopBit byte := by
  have hall : ∀ l : List UInt8,
      l.length * 8 ≤ (l.flatMap fun byte => Nat.toDigits 2 byte.toNat).length →
      ∀ byte ∈ l, TopBit byte := by
    intro l
    induction l with
    | nil => simp
    | cons b l ih =>
      intro hlen
      rw [List.flatMap_cons, List.length_append, List.length_cons] at hlen
      -- no byte takes more than eight digits, so none can take fewer
      have hb := (length_toDigits_bounds b).2
      have hl := (length_digits_bounds l).2
      rw [List.forall_mem_cons]
      exact ⟨topBit_of_length (by omega), ih (by omega)⟩
  obtain ⟨pre, hpre, -⟩ := h
  rw [getPrefix_eq] at hpre
  split at hpre
  · next hlt =>
    apply hall
    rw [List.Vector.toList_length]
    exact hlt
  · cases hpre

/-- **Bucket prefixes are bit prefixes**, exactly: for two keys, prefixes of all sizes are as they
should be iff every byte of both has its top bit set. For one size it is enough that the bytes it
reaches have. -/
theorem prefixes_are_bits_iff (a b : Key) :
    ((∀ n ≤ 255, BitPrefixed a b n) ↔
      (∀ byte ∈ a.bytes.toList, TopBit byte) ∧ ∀ byte ∈ b.bytes.toList, TopBit byte) ∧
    ∀ n ≤ 255, (∀ byte ∈ a.bytes.toList.take (n / 8 + 1), TopBit byte) →
      (∀ byte ∈ b.bytes.toList.take (n / 8 + 1), TopBit byte) → BitPrefixed a b n := by
  refine ⟨?_, fun n hn ha hb => bitPrefixed_of_topBits hn ha hb⟩
  constructor
  · intro h
    exact ⟨topBits_of_hasPrefix (h 255 le_rfl).left, topBits_of_hasPrefix (h 255 le_rfl).right⟩
  · intro h n hn
    apply bitPrefixed_of_topBits hn
    · exact fun byte hbyte => h.1 byte (List.mem_of_mem_take hbyte)
    · exact fun byte hbyte => h.2 byte (List.mem_of_mem_take hbyte)

/-- The keys that start with the bytes 128 and 1: both are written with a leading one. -/
theorem one_digit_two_bits : ¬ ∀ (a b : Key) (n : Nat), n ≤ 255 → BitPrefixed a b n := by
  intro hall
  have h := hall ⟨128 ::ᵥ List.Vector.replicate 31 0⟩ ⟨1 ::ᵥ List.Vector.replicate 31 0⟩ 0
    (Nat.zero_le _)
  have hbit := h.agree.mp rfl 0 le_rfl
  exact absurd hbit (by decide)

end Key

end Udp2p
