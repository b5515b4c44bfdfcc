import Udp2p.Transport.Addressing
import Udp2p.Transport.Closed

/-!
# Is what is sent delivered?

The channel may lose any datagram, so nothing is delivered for sure. But no packet is dropped
without a reason: once the sender's outbox has no record of a message left, either the node it goes
to has passed the message on, or some packet of it was put on the wire ten times and never received
there.

* `packet_accounted` — a packet is in the outbox, was received at its address or was sent ten times.
* `delivered_or_ten_copies_lost` — the same of a message.
-/

namespace Udp2p

namespace Network

variable {ν : Type} [DecidableEq ν] {W : Wire} {A : AddrText} {addr : ν → SocketAddr}
  {events : List (Event ν)} {s : Network ν W} {log : Log ν}

/-- **Every packet is accounted for**: it is in the outbox, or a node that knows itself under the
address it goes to has received it, or ten copies for that address were put on the wire. -/
theorem packet_accounted (hW : W.Reliable) (hfresh : FreshIds events)
    (hrun : (chronicle W A).run (new W addr) events = some (s, log)) {i : ν} {dst d : SocketAddr}
    {o : Original} (hmem : (i, dst, o) ∈ addressings log) (hhead : o.message.head ≠ .ack)
    (hd : goesTo A (addr i) dst = some d) {p : Packet} (hp : p ∈ o.packets) :
    ((s.nodes i).transport.gdUdp.entry p.id p.n).isSome ∨
    (∃ j src, (p, src) ∈ received j log ∧ A.parseBytes (A.textBytes (addr j)) = some d) ∨
    10 ≤ s.wire.countP fun x => x.Copies p.id p.n d := by
  obtain ⟨d', hd', hall⟩ := (addressed_of_run hrun).sent i dst o hmem hhead
  rw [hd, Option.some.injEq] at hd'
  subst hd'
  obtain ⟨outs, houtbox, hsub⟩ := outbox_of_run hrun i
  have hone := one_address_of_run hW.packet hfresh hrun i
  rcases GDUdp.accounted_of_run hW.total hone houtbox (mem_operations.mpr (hall p hp)) with
    ⟨e, he, -⟩ | ⟨src, hop, hparse⟩ | hten
  · exact Or.inl (Option.isSome_iff_exists.mpr ⟨e, he⟩)
  · -- the ack is truthful, so some node has received the packet
    obtain ⟨j, a, ha, heq⟩ := (receipts_of_run hW.packet hW.message hW.ack hfresh hrun).did i _ _
      src (mem_operations.mp hop)
    obtain ⟨hid, hn, rfl⟩ := AckMessage.mk.inj heq
    obtain ⟨hsplit, hids, hfamily⟩ := family_of_run hW.packet hfresh hrun
    have hknown : ∃ o ∈ family log, p ∈ o.packets :=
      ⟨o, (addressed_of_run hrun).mem_family hmem, hp⟩
    have hsame : p = a.1 := eq_of_same_packet hsplit hids hknown (hfamily j a ha) hid hn
    exact Or.inr (Or.inl ⟨j, a.2, hsame ▸ ha, hparse⟩)
  · exact Or.inr (Or.inr (hten.trans hsub.countP_le))

/-- The nodes have IPv4 addresses, each its own. -/
structure Distinct (addr : ν → SocketAddr) : Prop where
  v4 : AllV4 addr
  injective : Function.Injective addr

omit [DecidableEq ν] in
/-- A node is known to others under the address it has. -/
theorem Distinct.parse (h : Distinct addr) (j : ν) :
    A.parseBytes (A.textBytes (addr j)) = some (addr j) := by
  obtain ⟨ip, port, heq⟩ := h.v4 j
  rw [heq]
  exact A.parseBytes_textBytes ip port

/-- **Acks are truthful.** Among nodes with IPv4 addresses of their own, an address in the ack set
of a record is that of a node that has received the packet of the record. -/
theorem acks_are_truthful (hW : W.Reliable) (haddr : Distinct addr) (hfresh : FreshIds events)
    (hrun : (chronicle W A).run (new W addr) events = some (s, log)) :
    ∀ i id n e, (s.nodes i).transport.gdUdp.entry id n = some e → ∀ d ∈ e.ackSet,
      ∃ j src, addr j = d ∧ (e.packet, src) ∈ received j log := by
  intro i id n e he d hd
  obtain ⟨j, src, hsrc, hparse⟩ :=
    acked_of_run hW.packet hW.message hW.ack hfresh hrun i id n e he d hd
  rw [haddr.parse, Option.some.injEq] at hparse
  exact ⟨j, src, hparse, hsrc⟩

theorem distinct_twoAddrs : Distinct twoAddrs where
  v4 := allV4_twoAddrs
  injective := by
    have hne : firstAddr ≠ secondAddr := by decide
    intro i j heq
    cases i <;> cases j
    · rfl
    · exact absurd heq.symm hne
    · exact absurd heq hne
    · rfl

theorem acknowledged_truthful : ∃ s log,
    (chronicle Wire.json .standard).run (new Wire.json twoAddrs) acknowledged = some (s, log) ∧
    ∀ i id n e, (s.nodes i).transport.gdUdp.entry id n = some e → ∀ d ∈ e.ackSet,
      ∃ j src, twoAddrs j = d ∧ (e.packet, src) ∈ received j log := by
  obtain ⟨s, log, hrun⟩ := exists_chronicle (A := .standard) Wire.json_reliable
    (ByteRep.ofFormat_total _) (ByteRep.ofFormat_total _) allV4_twoAddrs forV4_acknowledged
    freshIds_acknowledged
  exact ⟨s, log, hrun,
    acks_are_truthful Wire.json_reliable distinct_twoAddrs freshIds_acknowledged hrun⟩

/-- **Delivered, or ten copies lost.** When no record of a message is left in the outbox of its
sender, the node at the address it went to has passed it on, or has not received some packet of it
of which ten copies were put on the wire. -/
theorem delivered_or_ten_copies_lost (hW : W.Reliable) (haddr : Distinct addr)
    (hfresh : FreshIds events)
    (hrun : (chronicle W A).run (new W addr) events = some (s, log)) {i : ν} {dst d : SocketAddr}
    {o : Original} (hmem : (i, dst, o) ∈ addressings log) (hhead : o.message.head ≠ .ack)
    (hd : goesTo A (addr i) dst = some d)
    (hdone : ∀ n, (s.nodes i).transport.gdUdp.entry o.id n = none) :
    (∃ j, addr j = d ∧ ∃ x ∈ handed j log, o.Gets x) ∨
    ∃ p ∈ o.packets, (∀ j src, addr j = d → (p, src) ∉ received j log) ∧
      10 ≤ s.wire.countP fun x => x.Copies p.id p.n d := by
  have haddressed := addressed_of_run hrun
  have hsplit := (unique_of_run hW.packet hfresh hrun).split hmem
  by_cases hall : ∀ p ∈ o.packets, ∃ j src, addr j = d ∧ (p, src) ∈ received j log
  · -- one node has received them all
    obtain ⟨p, hp⟩ := List.exists_mem_of_ne_nil _ hsplit.fragments.nonempty
    obtain ⟨j, -, hj, -⟩ := hall p hp
    obtain ⟨i', hi'⟩ := mem_family.mp (haddressed.mem_family hmem)
    apply Or.inl
    refine ⟨j, hj, ?_⟩
    apply (handed_iff_received hW.packet hW.message hfresh hrun j hi').mpr
    intro q hq
    obtain ⟨j', src, hj', hsrc⟩ := hall q hq
    obtain rfl := haddr.injective (hj'.trans hj.symm)
    exact ⟨src, hsrc⟩
  · simp only [not_forall] at hall
    obtain ⟨p, hp, hnot⟩ := hall
    apply Or.inr
    refine ⟨p, hp, fun j src hj hsrc => hnot ⟨j, src, hj, hsrc⟩, ?_⟩
    rcases packet_accounted hW hfresh hrun hmem hhead hd hp with
      hsome | ⟨j, src, hsrc, hparse⟩ | hten
    · rw [hsplit.fragments.id_eq p hp, hdone] at hsome
      cases hsome
    · rw [haddr.parse, Option.some.injEq] at hparse
      exact absurd ⟨j, src, hparse, hsrc⟩ hnot
    · exact hten

end Network

end Udp2p
