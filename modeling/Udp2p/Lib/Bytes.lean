import Mathlib.Data.List.Basic

/-!
# Byte strings: checked slices, cutting into pieces, bits, hexadecimal text

* `slice` / `sliceFrom` — range indexing that panics (`none`) out of range.
* `cut size n l` — `n` pieces of `size` elements and one piece with all the rest; joining the
  pieces gives `l` back (`flatten_cut`).
* `bitAt` — the bits of a byte string, most significant first, and the digits that spell them.
* `Hex` — a pair of functions between byte strings and texts of which the second undoes the first,
  and `Hex.standard`, two lower-case digits a byte, as one of them.
-/

namespace Udp2p

/-! ## Slices -/

variable {α : Type}

/-- `l[start..]`. -/
def sliceFrom (l : List α) (start : Nat) : Option (List α) :=
  if start ≤ l.length then some (l.drop start) else none

/-- `l[start..stop]`. -/
def slice (l : List α) (start stop : Nat) : Option (List α) :=
  if start ≤ stop ∧ stop ≤ l.length then some ((l.take stop).drop start) else none

theorem sliceFrom_of_le {l : List α} {start : Nat} (h : start ≤ l.length) :
    sliceFrom l start = some (l.drop start) := if_pos h

theorem slice_of_le {l : List α} {start size : Nat} (h : start + size ≤ l.length) :
    slice l start (start + size) = some ((l.drop start).take size) := by
  rw [slice, if_pos ⟨Nat.le_add_right _ _, h⟩, List.drop_take, Nat.add_sub_cancel_left]

/-! ## Cutting -/

/-- `n` pieces of `size` elements, then one with all the rest. -/
def cut (size : Nat) : Nat → List α → List (List α)
  | 0, l => [l]
  | n + 1, l => l.take size :: cut size n (l.drop size)

@[simp] theorem length_cut (size n : Nat) (l : List α) : (cut size n l).length = n + 1 := by
  induction n generalizing l with
  | zero => rfl
  | succ n ih => simp [cut, ih]

@[simp] theorem flatten_cut (size n : Nat) (l : List α) : (cut size n l).flatten = l := by
  induction n generalizing l with
  | zero => simp [cut]
  | succ n ih => simp [cut, ih]

theorem cut_ne_nil (size n : Nat) (l : List α) : cut size n l ≠ [] := by
  apply List.ne_nil_of_length_pos
  rw [length_cut]
  exact Nat.succ_pos n

/-- All pieces but the last have the size asked for, if there is enough to cut. -/
theorem length_of_mem_dropLast_cut {size n : Nat} {l : List α} (h : n * size ≤ l.length) :
    ∀ c ∈ (cut size n l).dropLast, c.length = size := by
  induction n generalizing l with
  | zero =>
    intro c hc
    cases hc
  | succ n ih =>
    rw [Nat.succ_mul] at h
    intro c hc
    rw [cut, List.dropLast_cons_of_ne_nil (cut_ne_nil size n _), List.mem_cons] at hc
    rcases hc with rfl | hc
    · rw [List.length_take]
      omega
    · exact ih (by rw [List.length_drop]; omega) c hc

/-- The last piece is what is left. -/
theorem getLast?_cut (size n : Nat) (l : List α) :
    (cut size n l).getLast? = some (l.drop (n * size)) := by
  induction n generalizing l with
  | zero => simp [cut]
  | succ n ih =>
    rw [cut, List.getLast?_cons_of_ne_nil (cut_ne_nil size n _), ih, List.drop_drop, Nat.succ_mul,
      Nat.add_comm]

/-! ## Bits -/

/-- The `i`-th bit of a byte string, the most significant bit of the first byte being bit 0. -/
def bitAt (l : List UInt8) (i : Nat) : Bool := (l.getD (i / 8) 0).toNat.testBit (7 - i % 8)

theorem bitAt_cons_of_lt (b : UInt8) (l : List UInt8) {i : Nat} (h : i < 8) :
    bitAt (b :: l) i = b.toNat.testBit (7 - i) := by
  rw [bitAt, Nat.div_eq_of_lt h, Nat.mod_eq_of_lt h, List.getD_cons_zero]

theorem bitAt_cons_add (b : UInt8) (l : List UInt8) (i : Nat) :
    bitAt (b :: l) (8 + i) = bitAt l i := by
  have hdiv : (8 + i) / 8 = i / 8 + 1 := Nat.add_div_left i (by decide)
  rw [bitAt, bitAt, hdiv, Nat.add_mod_left, List.getD_cons_succ]

/-- A bit as a binary digit. -/
def bitDigit (bit : Bool) : Char := if bit then '1' else '0'

theorem bitDigit_inj {b b' : Bool} : bitDigit b = bitDigit b' ↔ b = b' := by
  cases b <;> cases b' <;> decide

/-- The eight digits of a byte. -/
def byteDigits (b : UInt8) : List Char :=
  (List.range 8).map fun i => bitDigit (b.toNat.testBit (7 - i))

/-- Joining the eight digits of each byte spells the bits of the whole string. -/
theorem flatMap_byteDigits (l : List UInt8) :
    l.flatMap byteDigits = (List.range (8 * l.length)).map fun i => bitDigit (bitAt l i) := by
  induction l with
  | nil => rfl
  | cons b l ih =>
    have hlen : 8 * (b :: l).length = 8 + 8 * l.length := by
      rw [List.length_cons]
      omega
    have hfirst : (List.range 8).map (fun i => bitDigit (bitAt (b :: l) i)) = byteDigits b := rfl
    rw [List.flatMap_cons, ih, hlen, List.range_add, List.map_append, List.map_map, hfirst]
    apply congrArg (byteDigits b ++ ·)
    apply List.map_congr_left
    intro i _
    show bitDigit (bitAt l i) = bitDigit (bitAt (b :: l) (8 + i))
    rw [bitAt_cons_add]

/-! ## Hexadecimal text -/

/-- A textual encoding of byte strings. -/
structure Hex where
  encode : List UInt8 → String
  decode : String → Option (List UInt8)
  decode_encode : ∀ bytes, decode (encode bytes) = some bytes

namespace Hex

/-- The value of a hexadecimal digit of either case. -/
def digitValue (c : Char) : Option Nat :=
  if '0' ≤ c ∧ c ≤ '9' then some (c.toNat - '0'.toNat)
  else if 'a' ≤ c ∧ c ≤ 'f' then some (c.toNat - 'a'.toNat + 10)
  else if 'A' ≤ c ∧ c ≤ 'F' then some (c.toNat - 'A'.toNat + 10)
  else none

/-- The two digits of a byte, high nibble first. -/
def digits (b : UInt8) : List Char :=
  [Nat.digitChar (b.toNat / 16), Nat.digitChar (b.toNat % 16)]

/-- Two digits a byte; an odd number of digits or a character that is no digit is an error. -/
def decodeChars : List Char → Option (List UInt8)
  | [] => some []
  | [_] => none
  | hi :: lo :: rest => do
    let h ← digitValue hi
    let l ← digitValue lo
    let bytes ← decodeChars rest
    return UInt8.ofNat (16 * h + l) :: bytes

theorem digitValue_digitChar : ∀ n < 16, digitValue (Nat.digitChar n) = some n := by decide

theorem decodeChars_digits (b : UInt8) (rest : List Char) :
    decodeChars (digits b ++ rest) = (decodeChars rest).map (b :: ·) := by
  have hb : b.toNat < 256 := b.toNat_lt
  have hhi := digitValue_digitChar (b.toNat / 16) (by omega)
  have hlo := digitValue_digitChar (b.toNat % 16) (by omega)
  have hval : UInt8.ofNat (16 * (b.toNat / 16) + b.toNat % 16) = b := by
    rw [Nat.div_add_mod, UInt8.ofNat_toNat]
  simp only [digits, List.cons_append, List.nil_append, decodeChars, hhi, hlo,
    Option.bind_eq_bind, Option.bind_some, hval]
  cases decodeChars rest <;> rfl

theorem decodeChars_flatMap_digits (bytes : List UInt8) :
    decodeChars (bytes.flatMap digits) = some bytes := by
  induction bytes with
  | nil => rfl
  | cons b bytes ih => rw [List.flatMap_cons, decodeChars_digits, ih]; rfl

/-- Lower-case digits on the way out, either case on the way in. -/
def standard : Hex where
  encode bytes := String.ofList (bytes.flatMap digits)
  decode text := decodeChars text.toList
  decode_encode bytes := by rw [String.toList_ofList]; exact decodeChars_flatMap_digits bytes

end Hex

end Udp2p
