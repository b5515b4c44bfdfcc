import Udp2p.Discovery.Json
import Udp2p.Transport.Integrity

/-!
# Packets in JSON

What `serde_json` writes for packets, messages and acks can be read back. Texts are written between
quotes, with quotes, backslashes and control characters escaped; numbers have 64 bits, and end at
the comma or the brace after them.

* `Wire.json` — a wire that writes JSON and reads it.
* `Wire.json_reliable` — the network may rely on it.
-/

namespace Udp2p

open Format

/-! ## Numbers -/

theorem toUTF8_cons (d : Char) (l : List Char) : (String.ofList (d :: l)).toUTF8.data.toList =
    String.utf8EncodeChar d ++ (String.ofList l).toUTF8.data.toList := by
  have h : (String.ofList (d :: l)).toByteArray = [d].utf8Encode ++ l.utf8Encode := by
    rw [← List.utf8Encode_append]
    rfl
  rw [String.toUTF8_eq_toByteArray, h, List.utf8Encode_singleton]
  simp

/-- A digit is one byte, and the byte is a digit. -/
theorem isDigit_of_mem_utf8EncodeChar {d : Char} (hd : d.isDigit = true) {c : UInt8}
    (hc : c ∈ String.utf8EncodeChar d) : isDigit c = true := by
  have hrange : 48 ≤ d.val.toNat ∧ d.val.toNat ≤ 57 := by
    simp only [Char.isDigit, Bool.and_eq_true, decide_eq_true_eq] at hd
    exact ⟨UInt32.le_iff_toNat_le.mp hd.1, UInt32.le_iff_toNat_le.mp hd.2⟩
  have hsize : d.utf8Size = 1 := by
    unfold Char.utf8Size
    rw [if_pos]
    apply UInt32.le_iff_toNat_le.mpr
    show d.val.toNat ≤ 127
    omega
  rw [String.utf8EncodeChar_eq_singleton hsize, List.mem_singleton] at hc
  have hval : c.toNat = d.val.toNat := by
    rw [hc, UInt32.toNat_toUInt8]
    omega
  simp only [isDigit, Bool.and_eq_true, decide_eq_true_eq, UInt8.le_iff_toNat_le, hval]
  exact hrange

/-- Only digits are written for a number. -/
theorem isDigit_of_mem_jsonNat {n : Nat} {c : UInt8} (hc : c ∈ jsonNat n) : isDigit c = true := by
  have hchars : ∀ l : List Char, (∀ d ∈ l, d.isDigit = true) →
      ∀ c ∈ (String.ofList l).toUTF8.data.toList, isDigit c = true := by
    intro l
    induction l with
    | nil =>
      intro _ c hc
      simp at hc
    | cons d l ih =>
      intro h c hc
      rw [toUTF8_cons] at hc
      rcases List.mem_append.mp hc with hc | hc
      · exact isDigit_of_mem_utf8EncodeChar (h d List.mem_cons_self) hc
      · exact ih (fun e he => h e (List.mem_cons_of_mem d he)) c hc
  exact hchars _ (fun d hd => Nat.isDigit_of_mem_toDigits (by decide) (by decide) hd) c hc

theorem fromUTF8_toUTF8 (s : String) :
    String.fromUTF8? ⟨s.toUTF8.data.toList.toArray⟩ = some s := by
  show String.fromUTF8? s.toByteArray = some s
  rw [String.fromUTF8?, dif_pos s.isValidUTF8]
  rfl

/-- A decimal number. -/
def readNat (text : List UInt8) : Option Nat :=
  (String.fromUTF8? ⟨text.toArray⟩).map fun s => Nat.ofDigitChars 10 s.toList 0

theorem readNat_jsonNat (n : Nat) : readNat (jsonNat n) = some n := by
  rw [readNat, jsonNat, fromUTF8_toUTF8, Option.map_some, String.toList_ofList,
    Nat.ofDigitChars_ten_toDigits]

/-- A number as it is written, if it has 64 bits. Others, of which the code has none, are written
after a byte that JSON does not contain, so that no JSON is read as one. -/
def writeUsize (n : Nat) : List UInt8 := if n < 2 ^ 64 then jsonNat n else 255 :: jsonNat n

def readUsize (text : List UInt8) : Option Nat :=
  (readNat (if text.head? = some 255 then text.tail else text)).filter fun n => writeUsize n = text

theorem readUsize_writeUsize (n : Nat) : readUsize (writeUsize n) = some n := by
  have hstart : readNat (if (writeUsize n).head? = some 255 then (writeUsize n).tail
      else writeUsize n) = some n := by
    unfold writeUsize
    split
    · rw [if_neg, readNat_jsonNat]
      intro hhead
      have hdigit := isDigit_of_mem_jsonNat (List.mem_of_head? hhead)
      cases hdigit
    · exact readNat_jsonNat n
  rw [readUsize, hstart]
  simp

/-- What is read in JSON is a number of 64 bits. -/
theorem readUsize_lt {text : List UInt8} {n : Nat} (h : readUsize text = some n)
    (hjson : 255 ∉ text) : n < 2 ^ 64 := by
  obtain ⟨-, hwrite⟩ := Option.filter_eq_some_iff.mp h
  rw [decide_eq_true_eq] at hwrite
  by_contra hlarge
  apply hjson
  rw [← hwrite, writeUsize, if_neg hlarge]
  exact List.mem_cons_self

/-- A number and the comma after it. -/
def usizeFormat : Format UInt8 Nat :=
  upTo 44 writeUsize readUsize (fun n hmem => by
    have hdigits : 44 ∉ jsonNat n := fun hmem => by cases isDigit_of_mem_jsonNat hmem
    unfold writeUsize at hmem
    split at hmem
    · exact hdigits hmem
    · exact hdigits ((List.mem_cons.mp hmem).resolve_left (by decide))) readUsize_writeUsize

/-! ## Texts -/

/-- The characters that are written as a backslash and a letter. -/
def escapes : List (UInt8 × UInt8) :=
  [(34, 34), (92, 92), (8, 98), (12, 102), (10, 110), (13, 114), (9, 116)]

def hexDigit (n : Nat) : UInt8 := .ofNat (if n < 10 then 48 + n else 87 + n)

def hexValue (c : UInt8) : Nat := if c < 58 then c.toNat - 48 else c.toNat - 87

/-- A byte of a text. -/
def writeEscaped (b : UInt8) : List UInt8 :=
  match escapes.find? fun e => e.1 = b with
  | some e => [92, e.2]
  | none =>
    if b < 32 then [92, 117, 48, 48, hexDigit (b.toNat / 16), hexDigit (b.toNat % 16)] else [b]

def readEscaped : List UInt8 → Option (UInt8 × List UInt8)
  | 92 :: 117 :: 48 :: 48 :: a :: b :: rest => some (.ofNat (hexValue a * 16 + hexValue b), rest)
  | 92 :: c :: rest => (escapes.find? fun e => e.2 = c).map fun e => (e.1, rest)
  | b :: rest => some (b, rest)
  | [] => none

theorem hexValue_hexDigit {n : Nat} (h : n < 16) : hexValue (hexDigit n) = n := by
  have hall : ∀ n < 16, hexValue (hexDigit n) = n := by decide
  exact hall n h

theorem readEscaped_writeEscaped (b : UInt8) (rest : List UInt8) :
    readEscaped (writeEscaped b ++ rest) = some (b, rest) := by
  unfold writeEscaped
  split
  · next e hfind =>
    obtain rfl : e.1 = b := by simpa using List.find?_some hfind
    -- no escape is written with the letter that stands before a code
    have hmem := List.mem_of_find?_eq_some hfind
    simp only [escapes, List.mem_cons, List.not_mem_nil, or_false] at hmem
    rcases hmem with rfl | rfl | rfl | rfl | rfl | rfl | rfl <;> rfl
  · next hfind =>
    have hb : b ≠ 92 := by
      rintro rfl
      cases hfind
    split
    · next hlow =>
      have hlt : b.toNat < 32 := UInt8.lt_iff_toNat_lt.mp hlow
      show some (UInt8.ofNat (hexValue _ * 16 + hexValue _), rest) = _
      rw [hexValue_hexDigit (by omega), hexValue_hexDigit (by omega), Nat.mul_comm,
        Nat.div_add_mod, UInt8.ofNat_toNat]
    · show readEscaped (b :: rest) = _
      unfold readEscaped
      split
      · next heq => exact absurd (List.cons.inj heq).1 hb
      · next heq => exact absurd (List.cons.inj heq).1 hb
      · next heq =>
        obtain ⟨rfl, rfl⟩ := List.cons.inj heq
        rfl
      · next heq => cases heq

/-- An escaped byte does not start with a quote. -/
theorem head_writeEscaped (b : UInt8) (rest : List UInt8) :
    (writeEscaped b ++ rest).head? ≠ some 34 := by
  unfold writeEscaped
  split
  · next e hfind => simp
  · next hfind =>
    split
    · simp
    · intro h
      obtain rfl : b = 34 := by simpa using h
      cases hfind

/-- A text and the quote after it. -/
def textFormat : Format UInt8 String :=
  (many ⟨writeEscaped, readEscaped, readEscaped_writeEscaped⟩ 34 head_writeEscaped).convert
    (fun l => String.fromUTF8? ⟨l.toArray⟩) (fun s => s.toUTF8.data.toList) fromUTF8_toUTF8

/-! ## Packets, messages and acks -/

/-- A byte and the brace after it. -/
def byteFormat : Format UInt8 UInt8 :=
  upTo 125 (fun b => jsonNat b.toNat) readByte (notMem_jsonNat (by decide))
    fun b => (readByte_jsonNat b).1

def packetFormat : Format UInt8 Packet :=
  after "\x7b\"id\":".toUTF8.data.toList
    ((keyFormat.pair (after ",\"n\":".toUTF8.data.toList (usizeFormat.pair
      (after "\"total_n\":".toUTF8.data.toList (usizeFormat.pair
        (after "\"bytes\":\"".toUTF8.data.toList (textFormat.pair
          (after ",\"ret\":".toUTF8.data.toList byteFormat)))))))).convert
      (fun r => some ⟨r.1, r.2.1, r.2.2.1, r.2.2.2.1, r.2.2.2.2⟩)
      (fun p => (p.id, p.n, p.totalN, p.bytes, p.ret)) fun _ => rfl)

def headerName : Header → String
  | .request => "Request"
  | .response => "Response"
  | .gossip => "Gossip"
  | .ack => "Ack"

/-- A header and the quote after it. -/
def headerFormat : Format UInt8 Header :=
  upTo 34 (fun head => (headerName head).toUTF8.data.toList)
    (fun text => [.request, .response, .gossip, .ack].find? fun head =>
      (headerName head).toUTF8.data.toList = text)
    (fun head => by cases head <;> decide) fun head => by cases head <;> rfl

def messageFormat : Format UInt8 Message :=
  after "\x7b\"head\":\"".toUTF8.data.toList
    ((headerFormat.pair (after ",\"msg\":".toUTF8.data.toList (bytesFormat.before [125]))).convert
      (fun r => some ⟨r.1, r.2⟩) (fun m => (m.head, m.msg)) fun _ => rfl)

def ackFormat : Format UInt8 AckMessage :=
  after "\x7b\"packet_id\":".toUTF8.data.toList
    ((keyFormat.pair (after ",\"packet_number\":".toUTF8.data.toList
      (usizeFormat.pair (after "\"src\":".toUTF8.data.toList
        (bytesFormat.before [125]))))).convert
      (fun r => some ⟨r.1, r.2.1, r.2.2⟩) (fun a => (a.packetId, a.packetNumber, a.src))
      fun _ => rfl)

/-- A wire that writes JSON. -/
def Wire.json : Wire where
  hex := Hex.standard
  packet := .ofFormat packetFormat
  message := .ofFormat messageFormat
  ack := .ofFormat ackFormat
  kad := .ofFormat kadFormat

theorem Wire.json_reliable : Wire.json.Reliable where
  packet := ByteRep.ofFormat_lawful _
  message := ByteRep.ofFormat_lawful _
  ack := ByteRep.ofFormat_lawful _
  total := ByteRep.ofFormat_total _

/-- It writes what `gossipJson` and `ackJson` write, and what `packetJson` writes of texts that need
no escapes; the numbers have 64 bits. -/
theorem Wire.json_writes (data : MessageData) (ack : AckMessage) (packet : Packet)
    (hack : ack.packetNumber < 2 ^ 64) (hn : packet.n < 2 ^ 64) (htotal : packet.totalN < 2 ^ 64)
    (hplain : ∀ b ∈ packet.bytes.toUTF8.data.toList, writeEscaped b = [b]) :
    Wire.json.message.asBytes ⟨.gossip, data⟩ = some (gossipJson data) ∧
    Wire.json.ack.asBytes ack = some (ackJson ack) ∧
    Wire.json.packet.asBytes packet = some (packetJson packet) := by
  -- a number is written with the comma that `ackJson` and `packetJson` write after it
  refine ⟨congrArg some ?_, congrArg some ?_, congrArg some ?_⟩
  · simp only [gossipJson, List.append_assoc]
    rfl
  · simp only [ackJson, List.append_assoc]
    show _ ++ (_ ++ (_ ++ ((writeUsize ack.packetNumber ++ [44]) ++ _))) = _
    rw [writeUsize, if_pos hack, List.append_assoc (jsonNat _)]
    rfl
  · have htext : packet.bytes.toUTF8.data.toList.flatMap writeEscaped =
        packet.bytes.toUTF8.data.toList := by
      rw [List.flatMap_congr hplain]
      exact List.flatMap_singleton' _
    simp only [packetJson, List.append_assoc]
    show _ ++ (_ ++ (_ ++ ((writeUsize packet.n ++ [44]) ++ (_ ++ ((writeUsize packet.totalN ++
      [44]) ++ (_ ++ ((packet.bytes.toUTF8.data.toList.flatMap writeEscaped ++ [34]) ++ _))))))) = _
    rw [writeUsize, if_pos hn, writeUsize, if_pos htotal, htext,
      List.append_assoc (jsonNat _), List.append_assoc (jsonNat packet.totalN),
      List.append_assoc packet.bytes.toUTF8.data.toList]
    rfl

end Udp2p
