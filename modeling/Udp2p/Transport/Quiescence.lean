import Udp2p.GdUdp.Drain
import Udp2p.Transport.Reliability

/-!
# Does the network come to rest?

A record is stuck if an address it was not sent to has acknowledged it. Where datagrams reach only
the nodes they are addressed to, acks come only from there, so no record is ever stuck: ten passes
after the last sending, the outbox of a node is empty.

* `carried_of_run` — what lies on the wire goes where its message is sent.
* `never_stuck` — in no reached state is a record stuck.
* `outbox_empty_after_ten_passes` — and so every outbox drains.
-/

namespace Udp2p

namespace Network

variable {ν : Type} [DecidableEq ν] {W : Wire} {A : AddrText} {addr : ν → SocketAddr}
  {events : List (Event ν)} {s : Network ν W} {log : Log ν}

/-- The packet is one of a message that some node sends to `d`, or of an ack. -/
def Bound (A : AddrText) (addr : ν → SocketAddr) (log : Log ν) (p : Packet) (d : SocketAddr) :
    Prop :=
  ∃ i dst o, (i, dst, o) ∈ addressings log ∧ p ∈ o.packets ∧
    (o.message.head ≠ .ack → goesTo A (addr i) dst = some d)

omit [DecidableEq ν] in
theorem Bound.append {p : Packet} {d : SocketAddr} (h : Bound A addr log p d) (log' : Log ν) :
    Bound A addr (log ++ log') p d := by
  obtain ⟨i, dst, o, hmem, hrest⟩ := h
  exact ⟨i, dst, o, addressings_append log log' ▸ List.mem_append_left _ hmem, hrest⟩

/-- The packet of a record is of a message the node sends to the addresses of the record. -/
theorem record_goesTo (hpacket : W.packet.Lawful) (hfresh : FreshIds events)
    (hrun : (chronicle W A).run (new W addr) events = some (s, log)) {i : ν} {id : InnerKey}
    {n : Nat} {e : Entry} (he : (s.nodes i).transport.gdUdp.entry id n = some e) {d : SocketAddr}
    (hd : d ∈ e.sentSet) : ∃ dst o, (i, dst, o) ∈ addressings log ∧ e.packet ∈ o.packets ∧
      o.message.head ≠ .ack ∧ goesTo A (addr i) dst = some d := by
  have haddressed := addressed_of_run hrun
  obtain ⟨outs, houtbox, -⟩ := outbox_of_run hrun i
  have hexplained := GDUdp.explained_of_run houtbox
  obtain ⟨p, hop, hid, hn⟩ := hexplained.sent he d hd
  obtain ⟨dst, o, ho, hp, hrest⟩ := haddressed.sends i d p (mem_operations.mp hop)
  -- the packet on record is the one that was sent
  obtain ⟨hsplit, hids, -⟩ := family_of_run hpacket hfresh hrun
  obtain ⟨j, o', ho', -, hp'⟩ := (chronicled_of_run hpacket hrun).traced.outbox he
  obtain ⟨hid', hn'⟩ := hexplained.wellFormed.keyed he
  have hsame : e.packet = p := eq_of_same_packet hsplit hids
    ⟨o', mem_family_of_sent ho', hp'⟩ ⟨o, haddressed.mem_family ho, hp⟩ (hid'.trans hid.symm)
    (hn'.trans hn.symm)
  exact ⟨dst, o, ho, hsame ▸ hp, hrest⟩

/-- What goes on the wire in a step goes where its message is sent. -/
theorem bound_step (hpacket : W.packet.Lawful) (hfresh : FreshIds events)
    (hrun : (chronicle W A).run (new W addr) events = some (s, log)) {s' : Network ν W}
    {event : Event ν} {log' : Log ν} (hstep : (chronicle W A).step s event = some (s', log'))
    {x : Datagram W.packet} (hx : x ∈ s'.wire) :
    x ∈ s.wire ∨ Bound A addr (log ++ log') x.packet x.dest := by
  have haddressed := addressed_of_run hrun
  cases step_cases hstep with
  | idle => exact Or.inl hx
  | submit => exact Or.inl hx
  | @outgoingMsg i packetsId dst message om transport out o hom hsend ho =>
    rcases List.mem_append.mp hx with hold | hnew
    · exact Or.inl hold
    · apply Or.inr
      obtain ⟨o', ho', hpackets, -⟩ := outgoingMsg_original hsend
      rw [ho, Option.some.injEq] at ho'
      subst ho'
      obtain ⟨-, rfl, -⟩ := originalOf_eq_some ho
      refine ⟨i, dst, o, mem_addressings.mpr ?_, hpackets x hnew, fun hhead => ?_⟩
      · simp
      · obtain ⟨d, bytes, packets, -, hd, -, heq⟩ := Transport.outgoingMsg_split W hhead hsend
        have hout : out = _ := congrArg Prod.snd heq
        rw [hout, GDUdp.transmissions_sendAll] at hnew
        obtain ⟨y, hy, hnew⟩ := List.mem_flatMap.mp hnew
        obtain ⟨p, -, rfl⟩ := List.mem_map.mp hy
        rw [(GDUdp.mem_transmit W.packet hnew).2, ← haddressed.known i]
        exact hd
  | incomingAck => exact Or.inl hx
  | @maintain i =>
    rcases List.mem_append.mp hx with hold | hnew
    · exact Or.inl hold
    · apply Or.inr
      have hwf := (chronicled_of_run hpacket hrun).traced.wellFormed i
      obtain ⟨e, he, -, heq, hdest⟩ := GDUdp.mem_maintain W.packet hwf hnew
      obtain ⟨dst, o, ho, hp, -, hd⟩ :=
        record_goesTo hpacket hfresh hrun he (Entry.mem_resend.mp hdest).1
      exact Bound.append ⟨i, dst, o, ho, heq ▸ hp, fun _ => hd⟩ _
  | receive => exact Or.inl hx

/-- **What lies on the wire** goes where its message is sent. -/
theorem carried_of_run (hpacket : W.packet.Lawful) (hfresh : FreshIds events)
    (hrun : (chronicle W A).run (new W addr) events = some (s, log)) :
    ∀ x ∈ s.wire, Bound A addr log x.packet x.dest := by
  refine (chronicle W A).run_history_reached (P := fun s events log => FreshIds events →
    ∀ x ∈ s.wire, Bound A addr log x.packet x.dest) ?_ ?_ hrun hfresh
  · intro s events log event s' log' hbefore hprev hstep hfresh x hx
    rcases bound_step hpacket hfresh.of_concat hbefore hstep hx with hold | hnew
    · exact (hprev hfresh.of_concat x hold).append log'
    · exact hnew
  · intro _ x hx
    cases hx

/-- Datagrams reach only the nodes they are addressed to. -/
def Arrives (addr : ν → SocketAddr) (s : Network ν W) (event : Event ν) : Prop :=
  ∀ i k rest src x, event = .receive i k rest src → s.wire[k]? = some x → x.dest = addr i

/-- Where datagrams reach their addresses only, so do packets. -/
theorem received_bound (hpacket : W.packet.Lawful) (hfresh : FreshIds events)
    (harrives : (chronicle W A).Always (Arrives addr) (new W addr) events)
    (hrun : (chronicle W A).run (new W addr) events = some (s, log)) :
    ∀ j, ∀ a ∈ received j log, Bound A addr log a.1 (addr j) := by
  refine (chronicle W A).run_history_reached (P := fun s events log => FreshIds events →
    (chronicle W A).Always (Arrives addr) (new W addr) events →
    ∀ j, ∀ a ∈ received j log, Bound A addr log a.1 (addr j)) ?_ ?_ hrun hfresh harrives
  · intro s events log event s' log' hbefore hprev hstep hfresh harrives j a ha
    rw [(chronicle W A).always_concat_of_run hbefore] at harrives
    rw [received_append] at ha
    rcases List.mem_append.mp ha with hold | hnew
    · exact (hprev hfresh.of_concat harrives.1 j a hold).append log'
    · obtain ⟨k, rest, x, rfl, hx, heq⟩ := received_step hpacket hstep hnew
      have hbound := carried_of_run hpacket hfresh.of_concat hbefore x (List.mem_of_getElem? hx)
      rw [harrives.2 j k rest a.2 x rfl hx, heq] at hbound
      exact hbound.append log'
  · intro _ _ j a ha
    cases ha

/-- **No record is ever stuck** where datagrams reach only the nodes they are addressed to. -/
theorem never_stuck (hW : W.Reliable) (haddr : Distinct addr) (hfresh : FreshIds events)
    (harrives : (chronicle W A).Always (Arrives addr) (new W addr) events)
    (hrun : (chronicle W A).run (new W addr) events = some (s, log)) {i : ν} {id : InnerKey}
    {n : Nat} {e : Entry} (he : (s.nodes i).transport.gdUdp.entry id n = some e) : ¬ e.Stuck := by
  intro hstuck
  obtain ⟨-, -, a, hack, hnot⟩ := hstuck
  -- the address that should not have acknowledged is that of a node that received the packet
  obtain ⟨j, src, hsrc, hparse⟩ :=
    acked_of_run hW.packet hW.message hW.ack hfresh hrun i id n e he a hack
  rw [haddr.parse, Option.some.injEq] at hparse
  obtain ⟨i', dst', o', ho', hp', hgoes⟩ :=
    received_bound hW.packet hfresh harrives hrun j _ hsrc
  -- and so it is where the record was sent
  obtain ⟨outs, houtbox, -⟩ := outbox_of_run hrun i
  obtain ⟨d, hd⟩ := (GDUdp.explained_of_run houtbox).tried he
  obtain ⟨dst, o, ho, hp, hhead, hgoes'⟩ := record_goesTo hW.packet hfresh hrun he hd
  obtain ⟨rfl, rfl, rfl⟩ :=
    (unique_of_run hW.packet hfresh hrun).of_packet ho ho' hp hp' rfl
  rw [hgoes hhead, Option.some.injEq] at hgoes'
  exact hnot (by rw [← hparse, hgoes']; exact hd)

/-! ## Ten passes -/

/-- Operations without a pass meet no stuck record. -/
theorem always_drains_of_no_maintain {c : ByteRep Packet} {g : GDUdp} {ops : List GDUdp.Op}
    (h : ∀ op ∈ ops, op ≠ .maintain) : (GDUdp.machine c A).Always GDUdp.Drains g ops :=
  (GDUdp.machine c A).always_of_invariant (P := fun _ => True) (fun _ _ _ _ _ _ _ => trivial)
    (fun _ _ _ hop heq => absurd heq hop) trivial h

/-- What an outbox does in a step is one pass, or no pass. -/
theorem operations_step {s s' : Network ν W} {event : Event ν} {log : Log ν}
    (hstep : (chronicle W A).step s event = some (s', log)) (i : ν) :
    operations i log = [.maintain] ∨ ∀ op ∈ operations i log, op ≠ .maintain := by
  cases step_cases hstep with
  | idle => exact Or.inr fun op hop => nomatch hop
  | submit => exact Or.inr fun op hop => nomatch hop
  | @outgoingMsg j packetsId dst message om transport out o hom hsend ho =>
    apply Or.inr
    intro op hop
    have hmem : op ∈ Transport.operations W A (s.nodes j).transport
        (.outgoingMsg packetsId dst message) ∧ j = i := by
      simpa using mem_operations.mp hop
    obtain ⟨-, d, -, p, -, rfl⟩ := (mem_operations_outgoingMsg ho).mp hmem.1
    exact GDUdp.Op.noConfusion
  | @incomingAck j ack ia transport hia hack =>
    apply Or.inr
    intro op hop
    have hmem : op ∈ Transport.operations W A (s.nodes j).transport (.incomingAck ack) ∧ j = i := by
      simpa using mem_operations.mp hop
    rw [Transport.mem_operations_incomingAck hmem.1]
    exact GDUdp.Op.noConfusion
  | @maintain j =>
    have hops := operations_map_did i j [.maintain]
    by_cases hj : j = i
    · rw [if_pos hj] at hops
      exact Or.inl hops
    · rw [if_neg hj] at hops
      apply Or.inr
      intro op hop
      rw [show operations i [.inr (j, .did .maintain)] = [] from hops] at hop
      cases hop
  | receive =>
    apply Or.inr
    intro op hop
    have hmem := mem_operations.mp hop
    simp at hmem

/-- Where datagrams reach only the nodes they are addressed to, no pass of an outbox meets a stuck
record. -/
theorem always_drains (hW : W.Reliable) (haddr : Distinct addr) (hfresh : FreshIds events)
    (harrives : (chronicle W A).Always (Arrives addr) (new W addr) events)
    (hrun : (chronicle W A).run (new W addr) events = some (s, log)) (i : ν) :
    (GDUdp.machine W.packet A).Always GDUdp.Drains (GDUdp.new (addr i)) (operations i log) := by
  refine (chronicle W A).run_history_reached (P := fun s events log => FreshIds events →
    (chronicle W A).Always (Arrives addr) (new W addr) events →
    (GDUdp.machine W.packet A).Always GDUdp.Drains (GDUdp.new (addr i)) (operations i log))
    ?_ ?_ hrun hfresh harrives
  · intro s events log event s' log' hbefore hprev hstep hfresh harrives
    rw [(chronicle W A).always_concat_of_run hbefore] at harrives
    obtain ⟨outs, houtbox, -⟩ := outbox_of_run hbefore i
    rw [operations, List.filterMap_append]
    apply ((GDUdp.machine W.packet A).always_append_of_run houtbox).mpr
    refine ⟨hprev hfresh.of_concat harrives.1, ?_⟩
    rcases operations_step hstep i with hpass | hnone
    · show (GDUdp.machine W.packet A).Always GDUdp.Drains _ (operations i log')
      rw [hpass]
      refine ⟨fun _ id n e he => ?_, fun _ _ _ => trivial⟩
      exact never_stuck hW haddr hfresh.of_concat harrives.1 hbefore he
    · exact always_drains_of_no_maintain hnone
  · intro _ _
    trivial

/-- **Ten passes after its last sending** the outbox of a node is empty. -/
theorem outbox_empty_after_ten_passes (hW : W.Reliable) (haddr : Distinct addr)
    {before more : List (Event ν)} (hfresh : FreshIds (before ++ more))
    (harrives : (chronicle W A).Always (Arrives addr) (new W addr) (before ++ more))
    {s₀ : Network ν W} {log₀ : Log ν}
    (hbefore : (chronicle W A).run (new W addr) before = some (s₀, log₀))
    (hmore : (chronicle W A).run s₀ more = some (s, log)) {i : ν}
    (hquiet : ∀ d p, .inr (i, .did (.sendReliable d p)) ∉ log)
    (hten : 10 ≤ (operations i log).count .maintain) (id : InnerKey) (n : Nat) :
    (s.nodes i).transport.gdUdp.entry id n = none := by
  have hrun := (chronicle W A).run_append_eq_some.mpr ⟨s₀, log₀, log, hbefore, hmore, rfl⟩
  have hdrains := always_drains hW haddr hfresh harrives hrun i
  obtain ⟨outs₀, hbox₀, -⟩ := outbox_of_run hbefore i
  obtain ⟨outs, hbox, -⟩ := outbox_of_run hrun i
  rw [operations, List.filterMap_append] at hdrains hbox
  -- the outbox after the first part goes through the second part
  obtain ⟨g, o₁, o₂, hg, hbox', -⟩ := (GDUdp.machine W.packet A).run_append_eq_some.mp hbox
  obtain rfl : g = (s₀.nodes i).transport.gdUdp :=
    congrArg Prod.fst (Option.some.inj (hg.symm.trans hbox₀))
  have halways := (((GDUdp.machine W.packet A).always_append_of_run hbox₀).mp hdrains).2
  have hops : ∀ op ∈ operations i log, op.Quiet := by
    intro op hop d p heq
    exact hquiet d p (mem_operations.mp (heq ▸ hop))
  have hwf := GDUdp.wellFormed_of_run W.packet hbox₀
  obtain ⟨haged, -⟩ := GDUdp.run_quiet hwf (k := 0) (fun _ _ e _ => ⟨e.tried, by decide⟩) hops hbox'
  cases he : (s.nodes i).transport.gdUdp.entry id n with
  | none => rfl
  | some e =>
    have hlimit := (haged halways id n e he).2
    omega

/-- **A network at rest has done its work.** Where datagrams reach only the nodes they are addressed
to, ten passes after the last sending of node `i` every message it sent has been passed on by the
node at the address it went to, or has a packet of which ten copies were put on the wire and none
received there. -/
theorem settled_after_ten_passes (hW : W.Reliable) (haddr : Distinct addr)
    {before more : List (Event ν)} (hfresh : FreshIds (before ++ more))
    (harrives : (chronicle W A).Always (Arrives addr) (new W addr) (before ++ more))
    {s₀ : Network ν W} {log₀ : Log ν}
    (hbefore : (chronicle W A).run (new W addr) before = some (s₀, log₀))
    (hmore : (chronicle W A).run s₀ more = some (s, log)) {i : ν}
    (hquiet : ∀ d p, .inr (i, .did (.sendReliable d p)) ∉ log)
    (hten : 10 ≤ (operations i log).count .maintain) :
    (s.nodes i).transport.gdUdp.outbox.isEmpty = true ∧
    ∀ dst d o, (i, dst, o) ∈ addressings (log₀ ++ log) → o.message.head ≠ .ack →
      goesTo A (addr i) dst = some d →
      (∃ j, addr j = d ∧ ∃ x ∈ handed j (log₀ ++ log), o.Gets x) ∨
      ∃ p ∈ o.packets, (∀ j src, addr j = d → (p, src) ∉ received j (log₀ ++ log)) ∧
        10 ≤ s.wire.countP fun x => x.Copies p.id p.n d := by
  have hrun := (chronicle W A).run_append_eq_some.mpr ⟨s₀, log₀, log, hbefore, hmore, rfl⟩
  have hempty := outbox_empty_after_ten_passes hW haddr hfresh harrives hbefore hmore hquiet hten
  refine ⟨?_, fun dst d o hmem hhead hd => ?_⟩
  · rw [((chronicled_of_run hW.packet hrun).traced.wellFormed i).isEmpty_iff]
    exact hempty
  · exact delivered_or_ten_copies_lost hW haddr hfresh hrun hmem hhead hd fun n => hempty o.id n

/-! ## A message and ten passes -/

/-- Passes return, and nothing else is noted of them. -/
theorem run_passes (s : Network ν W) (i : ν) (k : Nat) : ∃ t,
    (chronicle W A).run s (List.replicate k (.maintain i)) =
      some (t, List.replicate k (.inr (i, .did .maintain))) := by
  induction k generalizing s with
  | zero => exact ⟨s, rfl⟩
  | succ k ih =>
    have hstep : (chronicle W A).step s (.maintain i) = some (_, [.inr (i, .did .maintain)]) := rfl
    obtain ⟨t, hrun⟩ := ih _
    exact ⟨t, (chronicle W A).run_cons_eq_some.mpr ⟨_, _, _, hstep, hrun, rfl⟩⟩

/-- The first node sends a gossip message, which nobody receives. -/
def sentOnce : List (Event Bool) := receivedTwice.take 2

theorem sentOnce_settled : ∃ s₀ log₀ s log,
    (chronicle Wire.json .standard).run (new Wire.json twoAddrs) sentOnce = some (s₀, log₀) ∧
    (chronicle Wire.json .standard).run s₀ (List.replicate 10 (Event.maintain true)) =
      some (s, log) ∧
    (s.nodes true).transport.gdUdp.outbox.isEmpty = true ∧
    ∀ dst d o, (true, dst, o) ∈ addressings (log₀ ++ log) → o.message.head ≠ .ack →
      goesTo .standard (twoAddrs true) dst = some d →
      (∃ j, twoAddrs j = d ∧ ∃ x ∈ handed j (log₀ ++ log), o.Gets x) ∨
      ∃ p ∈ o.packets, (∀ j src, twoAddrs j = d → (p, src) ∉ received j (log₀ ++ log)) ∧
        10 ≤ s.wire.countP fun x => x.Copies p.id p.n d := by
  have hv4 : ForV4 sentOnce := by
    intro i dst message hmem
    simp only [sentOnce, receivedTwice, List.take, List.mem_cons, List.not_mem_nil,
      Event.submit.injEq, reduceCtorEq, or_false] at hmem
    obtain ⟨rfl, rfl, -⟩ := hmem
    exact ⟨_, _, rfl⟩
  have hfresh : FreshIds (sentOnce ++ List.replicate 10 (Event.maintain true)) := by
    show ((sentOnce ++ List.replicate 10 (Event.maintain true)).filterMap Event.packetsId?).Nodup
    decide
  have hfresh₀ : FreshIds sentOnce := by
    show (sentOnce.filterMap Event.packetsId?).Nodup
    decide
  have harrives : (chronicle Wire.json .standard).Always (Arrives twoAddrs) (new Wire.json twoAddrs)
      (sentOnce ++ List.replicate 10 (Event.maintain true)) := by
    -- nothing is received
    refine (chronicle Wire.json .standard).always_of_invariant (P := fun _ => True)
      (A := fun event => ∀ i k rest src, event ≠ .receive i k rest src)
      (fun _ _ _ _ _ _ _ => trivial) ?_ trivial ?_
    · intro s event _ hno i k rest src x heq
      exact absurd heq (hno i k rest src)
    · intro event hmem i k rest src heq
      subst heq
      simp [sentOnce, receivedTwice] at hmem
  obtain ⟨s₀, log₀, hbefore⟩ := exists_chronicle (A := .standard) Wire.json_reliable
    (ByteRep.ofFormat_total _) (ByteRep.ofFormat_total _) allV4_twoAddrs hv4 hfresh₀
  obtain ⟨s, hmore⟩ := run_passes (A := .standard) s₀ true 10
  refine ⟨s₀, log₀, s, _, hbefore, hmore, ?_⟩
  apply settled_after_ten_passes Wire.json_reliable distinct_twoAddrs hfresh harrives hbefore hmore
  · intro d p hmem
    simp at hmem
  · decide

end Network

end Udp2p
