import Mathlib.Data.List.Lex
import Mathlib.Data.Vector.Zip
import Mathlib.Order.Lattice
import Udp2p.Net.SocketAddr

/-!
# Keys, their binary strings, and peers

A key is 32 bytes, ordered lexicographically; the distance of two keys is their XOR. The string a
key is formatted as joins the binary numerals of its bytes, which are *not* padded to eight digits:
the string has between 32 and 256 characters (`length_getBinary_bounds`), and the prefix
`get_prefix` slices off it need not exist (`getPrefix_eq`).
-/

namespace Udp2p

structure Key where
  bytes : List.Vector UInt8 32
  deriving DecidableEq

namespace Key

/-- The order derived from the byte array. -/
instance : LinearOrder Key :=
  LinearOrder.lift' (fun k => k.bytes.toList.map UInt8.toNat) fun k k' h => by
    obtain ⟨⟨l, hl⟩⟩ := k
    obtain ⟨⟨l', hl'⟩⟩ := k'
    have hmap : l = l' := (List.map_injective_iff.mpr fun _ _ => UInt8.toNat_inj.mp) h
    subst hmap
    rfl

def xor (k other : Key) : Key := ⟨List.Vector.zipWith (· ^^^ ·) k.bytes other.bytes⟩

/-- `u8::leading_zeros`. -/
def byteLeadingZeros (byte : UInt8) : Nat := if byte = 0 then 8 else 7 - Nat.log2 byte.toNat

/-- The loop of `leading_zeros`, with `n` counted so far: it returns at the first byte that is not
zero. -/
def leadingZerosFrom (n : Nat) : List UInt8 → Nat
  | [] => n
  | byte :: bytes =>
    if byte = 0 then leadingZerosFrom (n + 8) bytes else n + byteLeadingZeros byte

def leadingZeros (k : Key) : Nat := leadingZerosFrom 0 k.bytes.toList

/-- `u8::leading_ones`. -/
def byteLeadingOnes (byte : UInt8) : Nat := byteLeadingZeros (~~~byte)

/-- The loop of `leading_ones`, with `n` counted so far: bytes that are zero are passed over, and
past the last byte the count is dropped. -/
def leadingOnesFrom (n : Nat) : List UInt8 → Nat
  | [] => 0
  | byte :: bytes =>
    if byte ≠ 0 then
      if byteLeadingOnes byte = 8 then leadingOnesFrom (n + 8) bytes
      else n + byteLeadingOnes byte
    else leadingOnesFrom n bytes

def leadingOnes (k : Key) : Nat := leadingOnesFrom 0 k.bytes.toList

/-- The key with `{:b}`: `write!(f, "{:b}", byte)` for one byte after another. -/
def getBinary (k : Key) : List Char := k.bytes.toList.flatMap fun byte => Nat.toDigits 2 byte.toNat

/-- `&binary[0..=size]`, or the first character; slicing past the end panics. -/
def getPrefix (k : Key) (size : Nat) : Option (List Char) :=
  let binary := k.getBinary
  if 0 < size then
    if size + 1 ≤ binary.length then some (binary.take (size + 1)) else none
  else
    binary.head?.map fun c => [c]

/-! ## Lengths -/

theorem length_toDigits_bounds (byte : UInt8) :
    1 ≤ (Nat.toDigits 2 byte.toNat).length ∧ (Nat.toDigits 2 byte.toNat).length ≤ 8 := by
  have h : ∀ n < 256, 1 ≤ (Nat.toDigits 2 n).length ∧ (Nat.toDigits 2 n).length ≤ 8 := by
    decide +kernel
  exact h _ byte.toNat_lt

theorem length_digits_bounds (l : List UInt8) :
    l.length ≤ (l.flatMap fun b => Nat.toDigits 2 b.toNat).length ∧
      (l.flatMap fun b => Nat.toDigits 2 b.toNat).length ≤ l.length * 8 := by
  induction l with
  | nil => simp
  | cons b l ih =>
    have hb := length_toDigits_bounds b
    rw [List.flatMap_cons, List.length_append, List.length_cons]
    omega

theorem length_getBinary_bounds (k : Key) : 32 ≤ k.getBinary.length ∧ k.getBinary.length ≤ 256 := by
  have hk := length_digits_bounds k.bytes.toList
  rw [List.Vector.toList_length] at hk
  exact hk

/-- `get_prefix` takes one character more than it is asked for, if the string has that many. -/
theorem getPrefix_eq (k : Key) (size : Nat) : k.getPrefix size =
    if size < k.getBinary.length then some (k.getBinary.take (size + 1)) else none := by
  unfold getPrefix
  by_cases hsize : 0 < size
  · simp only [hsize, if_true, Nat.succ_le_iff]
  · have hpos : 0 < k.getBinary.length := by
      have := k.length_getBinary_bounds
      omega
    obtain rfl : size = 0 := Nat.eq_zero_of_not_pos hsize
    obtain ⟨c, cs, hcs⟩ := List.exists_cons_of_length_pos hpos
    simp [hcs]

theorem getPrefix_zero_isSome (k : Key) : (k.getPrefix 0).isSome := by
  have := k.length_getBinary_bounds
  rw [getPrefix_eq, if_pos (by omega)]
  rfl

/-- The binary string of a zero distance is one zero for each byte. -/
theorem getBinary_xor_self (k : Key) : (k.xor k).getBinary = List.replicate 32 '0' := by
  have h : ∀ l : List UInt8, (List.zipWith (· ^^^ ·) l l).flatMap
      (fun b => Nat.toDigits 2 b.toNat) = List.replicate l.length '0' := by
    intro l
    induction l with
    | nil => rfl
    | cons b l ih =>
      rw [List.zipWith_cons_cons, List.flatMap_cons, ih, UInt8.xor_self]
      rfl
  rw [getBinary, xor, List.Vector.zipWith_toList, h, List.Vector.toList_length]

end Key

/-- The hash string of a key; ids are equal when their strings are. -/
structure PeerId where
  id : String
  deriving DecidableEq

structure PeerInfo where
  id : PeerId
  key : Key
  ip : Ipv4Addr
  port : UInt32
  address : SocketAddr
  deriving DecidableEq

end Udp2p
