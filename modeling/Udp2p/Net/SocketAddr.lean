import Mathlib.Data.Vector.Basic

/-!
# Socket addresses and their texts

A node writes its own address as text into every acknowledgement, and the sender parses it back;
`outgoing_msg` splits address texts at the colon. `AddrText` holds the two conversions of the
standard library: what an IPv4 address looks like as text is fixed, how IPv6 addresses are written
and what else parses is left open. `AddrText.standard` is one such pair.
-/

namespace Udp2p

structure Ipv4Addr where
  a : UInt8
  b : UInt8
  c : UInt8
  d : UInt8
  deriving DecidableEq

/-- `127.0.0.1`. -/
def Ipv4Addr.localhost : Ipv4Addr := ⟨127, 0, 0, 1⟩

inductive SocketAddr where
  | v4 (ip : Ipv4Addr) (port : UInt16)
  | v6 (ip : List.Vector UInt16 8) (port : UInt16) (flowinfo scopeId : UInt32)
  deriving DecidableEq

/-! ## Decimal numbers -/

/-- A non-empty run of decimal digits with a value of at most `bound`. -/
def parseDecimal (bound : Nat) (cs : List Char) : Option Nat :=
  if cs ≠ [] ∧ cs.all Char.isDigit ∧ Nat.ofDigitChars 10 cs 0 ≤ bound then
    some (Nat.ofDigitChars 10 cs 0)
  else none

theorem parseDecimal_toDigits {bound n : Nat} (h : n ≤ bound) :
    parseDecimal bound (Nat.toDigits 10 n) = some n := by
  have hdigits : (Nat.toDigits 10 n).all Char.isDigit = true := by
    rw [List.all_eq_true]
    intro c hc
    exact Nat.isDigit_of_mem_toDigits (by decide) (by decide) hc
  rw [parseDecimal, Nat.ofDigitChars_ten_toDigits, if_pos ⟨Nat.toDigits_ne_nil, hdigits, h⟩]

theorem notMem_toDigits {c : Char} (hc : c.isDigit = false) (n : Nat) :
    c ∉ Nat.toDigits 10 n := by
  intro hmem
  have := Nat.isDigit_of_mem_toDigits (by decide) (by decide) hmem
  simp [this] at hc

/-- `str::parse::<u32>`: one leading plus sign is allowed. -/
def parseU32 : List Char → Option Nat
  | '+' :: cs => parseDecimal (2 ^ 32 - 1) cs
  | cs => parseDecimal (2 ^ 32 - 1) cs

theorem parseU32_toDigits {n : Nat} (h : n < 2 ^ 32) :
    parseU32 (Nat.toDigits 10 n) = some n := by
  unfold parseU32
  split
  · next cs heq =>
    exact absurd (heq ▸ List.mem_cons_self) (notMem_toDigits (c := '+') (by decide) n)
  · exact parseDecimal_toDigits (by omega)

/-! ## Texts -/

/-- The dotted form of an IPv4 address. -/
def Ipv4Addr.text (ip : Ipv4Addr) : List Char :=
  ['.'].intercalate [Nat.toDigits 10 ip.a.toNat, Nat.toDigits 10 ip.b.toNat,
    Nat.toDigits 10 ip.c.toNat, Nat.toDigits 10 ip.d.toNat]

/-- `ip:port`. -/
def textV4 (ip : Ipv4Addr) (port : UInt16) : List Char :=
  ip.text ++ ':' :: Nat.toDigits 10 port.toNat

/-- `to_string` and `parse` of socket addresses. -/
structure AddrText where
  toText : SocketAddr → String
  parse : String → Option SocketAddr
  toText_v4 : ∀ ip port, toText (.v4 ip port) = String.ofList (textV4 ip port)
  parse_toText : ∀ ip port, parse (toText (.v4 ip port)) = some (.v4 ip port)

theorem splitOn_toDigits (sep : Char) (hsep : sep.isDigit = false) (ls : List Nat) (hne : ls ≠ []) :
    ([sep].intercalate (ls.map (Nat.toDigits 10))).splitOn sep = ls.map (Nat.toDigits 10) := by
  apply List.splitOn_intercalate
  · intro l hl
    obtain ⟨n, -, rfl⟩ := List.mem_map.mp hl
    exact notMem_toDigits hsep n
  · simpa using hne

theorem Ipv4Addr.splitOn_text (ip : Ipv4Addr) :
    ip.text.splitOn '.' = [Nat.toDigits 10 ip.a.toNat, Nat.toDigits 10 ip.b.toNat,
      Nat.toDigits 10 ip.c.toNat, Nat.toDigits 10 ip.d.toNat] :=
  splitOn_toDigits '.' (by decide) [ip.a.toNat, ip.b.toNat, ip.c.toNat, ip.d.toNat] (by simp)

theorem Ipv4Addr.colon_notMem_text (ip : Ipv4Addr) : ':' ∉ ip.text := by
  have h := notMem_toDigits (c := ':') (by decide)
  simp [Ipv4Addr.text, List.intercalate, List.intersperse, h]

/-- Distinct IPv4 addresses have distinct texts. -/
theorem Ipv4Addr.text_injective {ip ip' : Ipv4Addr} (h : ip.text = ip'.text) : ip = ip' := by
  have hsplit := congrArg (List.splitOn '.') h
  rw [Ipv4Addr.splitOn_text, Ipv4Addr.splitOn_text] at hsplit
  have hback : ∀ {m n : UInt8}, Nat.toDigits 10 m.toNat = Nat.toDigits 10 n.toNat → m = n := by
    intro m n hmn
    have := congrArg (Nat.ofDigitChars 10 · 0) hmn
    simp only [Nat.ofDigitChars_ten_toDigits] at this
    exact UInt8.toNat_inj.mp this
  obtain ⟨a, b, c, d⟩ := ip
  obtain ⟨a', b', c', d'⟩ := ip'
  simp only [List.cons.injEq, and_true] at hsplit
  obtain ⟨ha, hb, hc, hd⟩ := hsplit
  rw [hback ha, hback hb, hback hc, hback hd]

/-- Splitting an IPv4 socket address at the colon gives the address and the port. -/
theorem splitOn_textV4 (ip : Ipv4Addr) (port : UInt16) :
    (textV4 ip port).splitOn ':' = [ip.text, Nat.toDigits 10 port.toNat] := by
  have h : textV4 ip port = [':'].intercalate [ip.text, Nat.toDigits 10 port.toNat] := by
    simp [textV4, List.intercalate, List.intersperse]
  rw [h]
  apply List.splitOn_intercalate
  · intro l hl
    rcases List.mem_pair.mp hl with rfl | rfl
    · exact ip.colon_notMem_text
    · exact notMem_toDigits (by decide) _
  · simp

namespace AddrText

variable (A : AddrText)

/-- `to_string().as_bytes().to_vec()`. -/
def textBytes (addr : SocketAddr) : List UInt8 := (A.toText addr).toUTF8.data.toList

/-- `String::from_utf8_lossy(src).parse()`. Bytes that are no UTF-8 give a text with a replacement
character, which no socket address contains. -/
def parseBytes (src : List UInt8) : Option SocketAddr :=
  (String.fromUTF8? ⟨src.toArray⟩).bind A.parse

theorem parseBytes_textBytes (ip : Ipv4Addr) (port : UInt16) :
    A.parseBytes (A.textBytes (.v4 ip port)) = some (.v4 ip port) := by
  have hutf8 : ∀ s : String, String.fromUTF8? ⟨s.toUTF8.data.toList.toArray⟩ = some s := by
    intro s
    show String.fromUTF8? s.toByteArray = some s
    rw [String.fromUTF8?, dif_pos s.isValidUTF8]
    rfl
  rw [parseBytes, textBytes, hutf8]
  exact A.parse_toText ip port

/-! ## One such pair -/

/-- A decimal octet: at most three digits, no leading zero, at most 255. -/
def parseOctet (cs : List Char) : Option UInt8 :=
  if cs.length ≤ 3 ∧ (cs.head? = some '0' → cs.length = 1) then
    (parseDecimal 255 cs).map UInt8.ofNat
  else none

theorem parseOctet_toDigits (b : UInt8) : parseOctet (Nat.toDigits 10 b.toNat) = some b := by
  have hform : ∀ n < 256, (Nat.toDigits 10 n).length ≤ 3 ∧
      ((Nat.toDigits 10 n).head? = some '0' → (Nat.toDigits 10 n).length = 1) := by decide +kernel
  have hb : b.toNat < 256 := b.toNat_lt
  rw [parseOctet, if_pos (hform _ hb), parseDecimal_toDigits (by omega)]
  simp

/-- The IPv4 half of `SocketAddr::from_str`. -/
def parseV4 (cs : List Char) : Option SocketAddr :=
  match cs.splitOn ':' with
  | [ip, port] =>
    match ip.splitOn '.' with
    | [a, b, c, d] => do
      let a ← parseOctet a
      let b ← parseOctet b
      let c ← parseOctet c
      let d ← parseOctet d
      let port ← parseDecimal 65535 port
      return .v4 ⟨a, b, c, d⟩ (UInt16.ofNat port)
    | _ => none
  | _ => none

theorem parseV4_textV4 (ip : Ipv4Addr) (port : UInt16) :
    parseV4 (textV4 ip port) = some (.v4 ip port) := by
  have hport : port.toNat < 65536 := port.toNat_lt
  simp only [parseV4, splitOn_textV4, Ipv4Addr.splitOn_text, parseOctet_toDigits,
    parseDecimal_toDigits (show port.toNat ≤ 65535 by omega)]
  simp

/-- IPv4 addresses written and read as the standard library does; IPv6 addresses written in their
long form and not read. -/
def standard : AddrText where
  toText
    | .v4 ip port => String.ofList (textV4 ip port)
    | .v6 ip port _ _ => String.ofList ('[' ::
        [':'].intercalate (ip.toList.map fun s => Nat.toDigits 16 s.toNat) ++
        ']' :: ':' :: Nat.toDigits 10 port.toNat)
  parse text := parseV4 text.toList
  toText_v4 _ _ := rfl
  parse_toText ip port := by
    simp only [String.toList_ofList]
    exact parseV4_textV4 ip port

end AddrText

end Udp2p
