import Mathlib.Data.List.TakeWhile
import Mathlib.Data.Nat.Find
import Udp2p.Node.Closeness

/-!
# Is `leading_ones` the dual of `leading_zeros`?

The leading ones of a key are the leading zeros of its distance to the key of ones. The loop of
`leading_zeros` stops in the first byte that is not zero; the loop of `leading_ones` passes over
zeros to the first byte that is neither zero nor all ones, and finds nothing when there is none.

* `leadingZeros_xor_allOnes` — the zeros of that distance are the leading ones of the number.
* `leadingOnesFrom_eq` — what the loop counts.
* `leadingOnes_dual_iff` — the keys whose leading ones are counted.
-/

namespace Udp2p

namespace Key

/-- `Key::new([255; 32])`. -/
def allOnes : Key := ⟨List.Vector.replicate 32 255⟩

/-- The number of leading ones of a key, read as a 256-bit number. -/
def leadingOneBits (k : Key) : Nat :=
  Nat.findGreatest (fun m => ∀ i < m, k.toNat.testBit (255 - i) = true) 256

/-- Neither zero nor all ones. -/
def mixed (byte : UInt8) : Bool := byte ≠ 0 && byte ≠ 255

/-- The bytes before the first mixed one. -/
def front (l : List UInt8) : List UInt8 := l.takeWhile fun byte => !mixed byte

/-- The front has no zeros, or it ends in them and the mixed byte starts with a zero; with no mixed
byte, the first byte is zero. -/
def OnesCounted (l : List UInt8) : Prop :=
  match l.find? mixed with
  | none => l.head? ≠ some 255
  | some byte => 0 ∉ front l ∨ byte < 128 ∧ (front l).Pairwise fun x y => x = 0 → y = 0

/-! ## Ones of the number -/

theorem bit_allOnes {i : Nat} (hi : i < 256) : allOnes.bit i = true := by
  revert i
  decide +kernel

theorem testBit_toNat (k : Key) {i : Nat} (hi : i < 256) : k.toNat.testBit (255 - i) = k.bit i := by
  have h := testBit_bigEndian k.bytes.toList (i := i)
    (by rw [List.Vector.toList_length]; exact hi)
  rw [List.Vector.toList_length] at h
  exact h

/-- **The dual**: the ones of a key are the zeros of its distance to the key of ones. -/
theorem leadingZeros_xor_allOnes (k : Key) : (k.xor allOnes).leadingZeros = k.leadingOneBits := by
  have hones : ∀ m ≤ 256, m ≤ (k.xor allOnes).leadingZeros ↔
      ∀ i < m, k.toNat.testBit (255 - i) = true := by
    intro m hm
    rw [le_leadingZeros_iff hm]
    refine forall₂_congr fun i hi => ?_
    have hi256 : i < 256 := hi.trans_le hm
    rw [testBit_toNat k hi256, bit_xor, bit_allOnes hi256]
    cases k.bit i <;> decide
  symm
  apply Nat.findGreatest_eq_iff.mpr
  refine ⟨leadingZeros_le _, fun _ => (hones _ (leadingZeros_le _)).mp le_rfl, ?_⟩
  intro m hlt hm hall
  exact absurd ((hones m hm).mpr hall) (Nat.not_le.mpr hlt)

/-! ## The loop -/

theorem byteLeadingOnes_eq_iff (byte : UInt8) :
    (byteLeadingOnes byte = 8 ↔ byte = 255) ∧ (byteLeadingOnes byte = 0 ↔ byte < 128) := by
  have h : ∀ n < 256, (byteLeadingOnes (.ofNat n) = 8 ↔ UInt8.ofNat n = 255) ∧
      (byteLeadingOnes (.ofNat n) = 0 ↔ UInt8.ofNat n < 128) := by decide +kernel
  have hbyte := h _ byte.toNat_lt
  rw [UInt8.ofNat_toNat] at hbyte
  exact hbyte

theorem byteLeadingOnes_eq_eight_iff (byte : UInt8) : byteLeadingOnes byte = 8 ↔ byte = 255 :=
  (byteLeadingOnes_eq_iff byte).1

theorem byteLeadingOnes_eq_zero_iff (byte : UInt8) : byteLeadingOnes byte = 0 ↔ byte < 128 :=
  (byteLeadingOnes_eq_iff byte).2

theorem eq_of_not_mixed {byte : UInt8} (h : mixed byte = false) : byte = 0 ∨ byte = 255 := by
  unfold mixed at h
  grind

theorem front_cons_of_not_mixed {byte : UInt8} (h : mixed byte = false) (l : List UInt8) :
    front (byte :: l) = byte :: front l :=
  List.takeWhile_cons_of_pos (by rw [h]; rfl)

theorem find?_mixed_cons {byte : UInt8} (h : mixed byte = false) (l : List UInt8) :
    (byte :: l).find? mixed = l.find? mixed :=
  List.find?_cons_of_neg (Bool.not_eq_true _ ▸ h)

theorem leadingOnesFrom_zero (n : Nat) (l : List UInt8) :
    leadingOnesFrom n (0 :: l) = leadingOnesFrom n l := by
  rw [leadingOnesFrom, if_neg (not_not.mpr rfl)]

theorem leadingOnesFrom_ones (n : Nat) (l : List UInt8) :
    leadingOnesFrom n (255 :: l) = leadingOnesFrom (n + 8) l := by
  rw [leadingOnesFrom, if_pos (by decide), if_pos ((byteLeadingOnes_eq_eight_iff 255).mpr rfl)]

theorem leadingOnesFrom_mixed (n : Nat) {byte : UInt8} (h : mixed byte = true) (l : List UInt8) :
    leadingOnesFrom n (byte :: l) = n + byteLeadingOnes byte := by
  have hne : byte ≠ 0 ∧ byte ≠ 255 := by simpa [mixed] using h
  have height : byteLeadingOnes byte ≠ 8 := fun h8 =>
    hne.2 ((byteLeadingOnes_eq_eight_iff byte).mp h8)
  rw [leadingOnesFrom, if_pos hne.1, if_neg height]

/-- **The loop** counts the bytes of ones in front of the first mixed byte, and the ones of that. -/
theorem leadingOnesFrom_eq (n : Nat) (l : List UInt8) : leadingOnesFrom n l =
    match l.find? mixed with
    | none => 0
    | some byte => n + 8 * (front l).count 255 + byteLeadingOnes byte := by
  induction l generalizing n with
  | nil => rfl
  | cons byte l ih =>
    cases hmixed : mixed byte with
    | true =>
      rw [leadingOnesFrom_mixed n hmixed, List.find?_cons_of_pos hmixed]
      simp [front, hmixed]
    | false =>
      rw [find?_mixed_cons hmixed, front_cons_of_not_mixed hmixed]
      rcases eq_of_not_mixed hmixed with rfl | rfl
      · rw [leadingOnesFrom_zero, ih]
        simp
      · rw [leadingOnesFrom_ones, ih]
        cases l.find? mixed with
        | none => rfl
        | some byte =>
          simp only [List.count_cons_self]
          omega

example : leadingOnesFrom 0 [0, 255, 0, 192] = 10 := by decide

theorem byteLeadingOnes_zero : byteLeadingOnes 0 = 0 :=
  (byteLeadingOnes_eq_zero_iff 0).mpr (by decide)

/-- No ones are counted in the front when it holds only zeros. -/
theorem count_front_eq_zero_iff (l : List UInt8) :
    (front l).count 255 = 0 ↔ ∀ byte ∈ front l, byte = 0 := by
  rw [List.count_eq_zero]
  constructor
  · intro hones byte hbyte
    have hfront : mixed byte = false := by simpa using List.mem_takeWhile_imp hbyte
    rcases eq_of_not_mixed hfront with hzero | rfl
    · exact hzero
    · exact absurd hbyte hones
  · intro hzeros hmem
    exact absurd (hzeros 255 hmem) (by decide)

/-! ## The dual of the loop -/

theorem xor_allOnes (k : Key) :
    (k.xor allOnes).bytes.toList = k.bytes.toList.map fun byte => ~~~byte := by
  have h : ∀ l : List UInt8, List.zipWith (· ^^^ ·) l (List.replicate l.length 255) =
      l.map fun byte => ~~~byte := by
    intro l
    induction l with
    | nil => rfl
    | cons byte l ih =>
      rw [List.length_cons, List.replicate_succ, List.zipWith_cons_cons, ih, List.map_cons]
      exact congrArg (· :: _) (UInt8.xor_neg_one)
  have hk := h k.bytes.toList
  rw [List.Vector.toList_length] at hk
  rw [xor, List.Vector.zipWith_toList]
  exact hk

/-- `leading_zeros` of the complement stops in the first byte that is not all ones. -/
theorem leadingZerosFrom_complement_cons (n : Nat) (byte : UInt8) (l : List UInt8) :
    leadingZerosFrom n ((byte :: l).map fun byte => ~~~byte) =
      if byte = 255 then leadingZerosFrom (n + 8) (l.map fun byte => ~~~byte)
      else n + byteLeadingOnes byte := by
  have hzero : ~~~byte = 0 ↔ byte = 255 := by
    rw [← byteLeadingOnes_eq_eight_iff, byteLeadingOnes]
    constructor
    · intro h
      rw [h]
      rfl
    · intro h
      by_contra hne
      exact absurd h (Nat.ne_of_lt (byteLeadingZeros_lt hne))
  rw [List.map_cons, leadingZerosFrom]
  simp only [hzero]
  rfl

theorem pairwise_zero_cons (l : List UInt8) :
    (0 :: l).Pairwise (fun x y => x = 0 → y = 0) ↔ ∀ byte ∈ l, byte = 0 := by
  rw [List.pairwise_cons]
  constructor
  · rintro ⟨hzeros, -⟩ byte hbyte
    exact hzeros byte hbyte rfl
  · intro hzeros
    refine ⟨fun byte hbyte _ => hzeros byte hbyte, ?_⟩
    exact List.pairwise_of_forall_mem_list fun _ _ y hy _ => hzeros y hy

/-- **The loops agree**, exactly. -/
theorem leadingOnesFrom_eq_iff (n : Nat) (l : List UInt8) :
    leadingOnesFrom n l = leadingZerosFrom n (l.map fun byte => ~~~byte) ↔
      (l.find? mixed = none → n = 0) ∧ OnesCounted l := by
  induction l generalizing n with
  | nil =>
    show 0 = n ↔ _
    simp [OnesCounted, eq_comm]
  | cons byte l ih =>
    rw [leadingZerosFrom_complement_cons]
    unfold OnesCounted at ih ⊢
    cases hmixed : mixed byte with
    | true =>
      have hne : byte ≠ 255 := by
        rintro rfl
        cases hmixed
      rw [leadingOnesFrom_mixed n hmixed, if_neg hne, List.find?_cons_of_pos hmixed]
      simp [front, hmixed]
    | false =>
      rw [find?_mixed_cons hmixed, front_cons_of_not_mixed hmixed]
      rcases eq_of_not_mixed hmixed with rfl | rfl
      · -- the dual stops here; the loop goes on, and must count nothing
        rw [leadingOnesFrom_zero, leadingOnesFrom_eq, if_neg (by decide), byteLeadingOnes_zero]
        cases hfind : l.find? mixed with
        | none =>
          show 0 = n ↔ _
          simp [eq_comm]
        | some byte =>
          have hcount : n + 8 * (front l).count 255 + byteLeadingOnes byte = n + 0 ↔
              byteLeadingOnes byte = 0 ∧ (front l).count 255 = 0 := by omega
          show n + 8 * (front l).count 255 + byteLeadingOnes byte = n + 0 ↔ _
          rw [hcount, byteLeadingOnes_eq_zero_iff, count_front_eq_zero_iff, ← pairwise_zero_cons]
          simp
      · rw [leadingOnesFrom_ones, if_pos rfl, ih]
        cases l.find? mixed with
        | none => simp
        | some byte => simp

/-- **The dual of `leading_zeros`** is met by exactly the keys whose ones are counted. -/
theorem leadingOnes_dual_iff (k : Key) :
    (k.xor allOnes).leadingZeros = k.leadingOneBits ∧
    (k.leadingOnes = (k.xor allOnes).leadingZeros ↔ OnesCounted k.bytes.toList) := by
  refine ⟨leadingZeros_xor_allOnes k, ?_⟩
  unfold leadingOnes leadingZeros
  rw [xor_allOnes, leadingOnesFrom_eq_iff]
  exact and_iff_right fun _ => rfl

/-- The key of ones: the loop ends past the last byte, and the count is dropped. -/
theorem all_ones_not_counted : ¬ ∀ k : Key, k.leadingOnes = (k.xor allOnes).leadingZeros := by
  intro hdual
  exact absurd (hdual allOnes) (by decide +kernel)

end Key

end Udp2p
