import Udp2p.Gossip.Gossip
import Udp2p.Transport.Json

/-!
# Gossip messages in JSON

What `serde_json` writes for gossip messages can be read back, if their senders have IPv4 addresses,
which are written as texts.

* `ByteRep.gossipJson` — gossip messages of such senders, written and read.
-/

namespace Udp2p

open Format

/-- An IPv4 address and a port, as a text and the quote after it. -/
def senderFormat : Format UInt8 (Ipv4Addr × UInt16) :=
  textFormat.convert
    (fun text =>
      match AddrText.standard.parse text with
      | some (.v4 ip port) => some (ip, port)
      | _ => none)
    (fun sender => AddrText.standard.toText (.v4 sender.1 sender.2))
    fun sender => by rw [AddrText.standard.parse_toText]

def gossipMessageFormat : Format UInt8 (InnerKey × MessageData × Ipv4Addr × UInt16) :=
  after "\x7b\"id\":".toUTF8.data.toList
    (keyFormat.pair (after ",\"data\":".toUTF8.data.toList
      (bytesFormat.pair (after ",\"sender\":\"".toUTF8.data.toList (senderFormat.before [125])))))

/-- Messages of senders with IPv4 addresses; no other ones are written. -/
def ByteRep.gossipJson : ByteRep GossipMessage where
  asBytes message :=
    match message.sender with
    | .v4 ip port => some (gossipMessageFormat.write (message.id, message.data, ip, port))
    | _ => none
  fromBytes bytes := (gossipMessageFormat.parse bytes).map fun r =>
    ⟨r.1, r.2.1, .v4 r.2.2.1 r.2.2.2⟩

theorem ByteRep.gossipJson_lawful : gossipJson.Lawful := by
  rintro ⟨id, data, sender⟩ bytes h
  cases sender with
  | v4 ip port =>
    cases h
    show (gossipMessageFormat.parse (gossipMessageFormat.write (id, data, ip, port))).map _ = _
    rw [parse_write]
    rfl
  | v6 => cases h

/-- Whatever a sender with an IPv4 address has to say is written. -/
theorem ByteRep.gossipJson_isSome (id : InnerKey) (data : MessageData) (ip : Ipv4Addr)
    (port : UInt16) : (gossipJson.asBytes ⟨id, data, .v4 ip port⟩).isSome := rfl

end Udp2p
