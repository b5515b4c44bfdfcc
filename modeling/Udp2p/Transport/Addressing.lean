import Udp2p.GdUdp.Accounts
import Udp2p.Transport.Receipts

/-!
# Where do the packets of a message go?

`outgoing_msg` sends all the packets of a message to one address, the one its destination is
redirected to, and the passes send them there again. With an id of its own for every message, the
packets under an id are those of one message of one node for one destination.

* `Addressed.step`, `addressed_of_run` — what an outbox sends, and where what lies on the wire goes.
* `unique_of_run`, `Unique.of_packet` — a packet is sent by one node, for one destination.
-/

namespace Udp2p

namespace Network

variable {ν : Type} [DecidableEq ν] {W : Wire} {A : AddrText}

/-- The messages that were split, with the nodes that split them and the addresses they are for. -/
def addressings (log : Log ν) : List (ν × SocketAddr × Original) :=
  log.filterMap fun
    | .inr (i, .addressed dst o) => some (i, dst, o)
    | _ => none

omit [DecidableEq ν] in
theorem mem_addressings {i : ν} {dst : SocketAddr} {o : Original} {log : Log ν} :
    (i, dst, o) ∈ addressings log ↔ .inr (i, .addressed dst o) ∈ log := by
  simp only [addressings, List.mem_filterMap]
  constructor
  · rintro ⟨x, hx, heq⟩
    split at heq
    · cases heq
      exact hx
    · cases heq
  · intro h
    exact ⟨_, h, rfl⟩

/-- Where node `i`, knowing itself under `self`, sends what is for `dst`. -/
def goesTo (A : AddrText) (self dst : SocketAddr) : Option SocketAddr :=
  Transport.redirect A (A.toText self) (A.toText dst) dst

/-- What was sent, and where to. -/
structure Addressed (A : AddrText) (addr : ν → SocketAddr) (s : Network ν W) (log : Log ν) :
    Prop where
  known : ∀ i, (s.nodes i).transport.gdUdp.addr = addr i
  messages : (addressings log).map (fun x => x.2.2) = family log
  sends : ∀ i d p, .inr (i, .did (.sendReliable d p)) ∈ log → ∃ dst o,
    (i, dst, o) ∈ addressings log ∧ p ∈ o.packets ∧ o.message.head ≠ .ack ∧
      goesTo A (addr i) dst = some d
  sent : ∀ i dst o, (i, dst, o) ∈ addressings log → o.message.head ≠ .ack →
    ∃ d, goesTo A (addr i) dst = some d ∧
      ∀ p ∈ o.packets, .inr (i, .did (.sendReliable d p)) ∈ log

omit [DecidableEq ν] in
theorem addressings_append (log log' : Log ν) :
    addressings (log ++ log') = addressings log ++ addressings log' := List.filterMap_append

omit [DecidableEq ν] in
theorem addressings_eq_nil {log : Log ν} (h : ∀ i dst o, .inr (i, .addressed dst o) ∉ log) :
    addressings log = [] := by
  rw [List.eq_nil_iff_forall_not_mem]
  intro x hx
  exact h x.1 x.2.1 x.2.2 (mem_addressings.mp hx)

omit [DecidableEq ν] in
/-- A step that splits no message and sends none. -/
theorem Addressed.quiet {addr : ν → SocketAddr} {s s' : Network ν W} {log log' : Log ν}
    (h : Addressed A addr s log) (hknown : ∀ i, (s'.nodes i).transport.gdUdp.addr = addr i)
    (hsent : ∀ i o, .inl (.sent i o) ∉ log') (hnone : ∀ i dst o, .inr (i, .addressed dst o) ∉ log')
    (hdid : ∀ i d p, .inr (i, .did (.sendReliable d p)) ∉ log') :
    Addressed A addr s' (log ++ log') := by
  have haddr : addressings (log ++ log') = addressings log := by
    rw [addressings_append, addressings_eq_nil hnone, List.append_nil]
  refine ⟨hknown, ?_, fun i d p hmem => ?_, fun i dst o hmem hhead => ?_⟩
  · rw [haddr, family_append, family_eq_nil hsent, List.append_nil]
    exact h.messages
  · rw [haddr]
    rcases List.mem_append.mp hmem with hold | hnew
    · exact h.sends i d p hold
    · exact absurd hnew (hdid i d p)
  · rw [haddr] at hmem
    obtain ⟨d, hd, hall⟩ := h.sent i dst o hmem hhead
    exact ⟨d, hd, fun p hp => List.mem_append_left _ (hall p hp)⟩

/-- **Step.** -/
theorem Addressed.step {addr : ν → SocketAddr} {s s' : Network ν W} {event : Event ν}
    {log log' : Log ν} (h : Addressed A addr s log)
    (hstep : (chronicle W A).step s event = some (s', log')) :
    Addressed A addr s' (log ++ log') := by
  have hknown : ∀ i, (s'.nodes i).transport.gdUdp.addr = addr i := by
    intro i
    obtain ⟨outs, out, hrun, -, -⟩ := outbox_step hstep i
    exact (GDUdp.addr_of_run hrun).trans (h.known i)
  cases step_cases hstep with
  | idle => exact h.quiet hknown (by simp) (by simp) (by simp)
  | submit => exact h.quiet hknown (by simp) (by simp) (by simp)
  | @outgoingMsg i packetsId dst message om transport out o hom hsend ho =>
    obtain ⟨-, rfl, -⟩ := originalOf_eq_some ho
    have hops : ∀ op, op ∈ Transport.operations W A (s.nodes i).transport
        (.outgoingMsg packetsId dst o.message) ↔ o.message.head ≠ .ack ∧
          ∃ d, goesTo A (s.nodes i).transport.gdUdp.addr dst = some d ∧
            ∃ p ∈ o.packets, op = .sendReliable d p := fun op => mem_operations_outgoingMsg ho
    rw [h.known i] at hops
    generalize Transport.operations W A (s.nodes i).transport
      (.outgoingMsg packetsId dst o.message) = ops at hops ⊢
    have hnew : addressings ((.inl (.sent i o) : Report ν ⊕ ν × Note) ::
        .inr (i, .addressed dst o) :: ops.map fun op => .inr (i, .did op)) = [(i, dst, o)] := by
      have hnone : addressings (ops.map fun op => (.inr (i, .did op) : Report ν ⊕ ν × Note)) = [] :=
        addressings_eq_nil (by simp)
      show (i, dst, o) :: addressings _ = _
      rw [hnone]
    have hsplit : family ((.inl (.sent i o) : Report ν ⊕ ν × Note) ::
        .inr (i, .addressed dst o) :: ops.map fun op => .inr (i, .did op)) = [o] := by
      have hnone : family ((.inr (i, .addressed dst o) : Report ν ⊕ ν × Note) ::
          ops.map fun op => .inr (i, .did op)) = [] := family_eq_nil (by simp)
      show o :: family _ = _
      rw [hnone]
    refine ⟨hknown, ?_, fun j d p hmem => ?_, fun j dst' o' hmem hhead => ?_⟩
    · rw [addressings_append, family_append, List.map_append, h.messages, hnew, hsplit]
      rfl
    · rw [addressings_append, hnew]
      rcases List.mem_append.mp hmem with hold | hmem
      · obtain ⟨dst', o', ho', hrest⟩ := h.sends j d p hold
        exact ⟨dst', o', List.mem_append_left _ ho', hrest⟩
      · obtain ⟨hop, rfl⟩ : .sendReliable d p ∈ ops ∧ i = j := by simpa using hmem
        obtain ⟨hhead, d', hd', p', hp', heq⟩ := (hops _).mp hop
        cases heq
        exact ⟨dst, o, List.mem_append_right _ (List.mem_singleton_self _), hp', hhead, hd'⟩
    · rw [addressings_append, hnew] at hmem
      rcases List.mem_append.mp hmem with hold | hmem
      · obtain ⟨d, hd, hall⟩ := h.sent j dst' o' hold hhead
        exact ⟨d, hd, fun p hp => List.mem_append_left _ (hall p hp)⟩
      · cases List.mem_singleton.mp hmem
        -- the step has returned, so the address is redirected
        obtain ⟨d, -, -, -, hd, -, -⟩ := Transport.outgoingMsg_split W hhead hsend
        rw [h.known] at hd
        refine ⟨d, hd, fun p hp => List.mem_append_right _ ?_⟩
        have hop := (hops (.sendReliable d p)).mpr ⟨hhead, d, hd, p, hp, rfl⟩
        simpa using hop
  | @incomingAck i ack ia transport hia hack =>
    refine h.quiet hknown (by simp) (by simp) fun j d p hmem => ?_
    have hop : .sendReliable d p ∈ Transport.operations W A (s.nodes i).transport
        (.incomingAck ack) ∧ i = j := by simpa using hmem
    cases Transport.mem_operations_incomingAck hop.1
  | maintain => exact h.quiet hknown (by simp) (by simp) (by simp)
  | receive => exact h.quiet hknown (by simp) (by simp) (by simp)

theorem addressed_of_run {addr : ν → SocketAddr} {events : List (Event ν)} {s : Network ν W}
    {log : Log ν} (hrun : (chronicle W A).run (new W addr) events = some (s, log)) :
    Addressed A addr s log :=
  (chronicle W A).run_history (A := fun _ => True) (P := fun s _ log => Addressed A addr s log)
    (fun _ _ _ _ _ _ h _ hstep => h.step hstep)
    ⟨fun _ => rfl, rfl, fun _ _ _ hmem => absurd hmem List.not_mem_nil,
      fun _ _ _ hmem => absurd hmem List.not_mem_nil⟩ (fun _ _ => trivial) hrun

omit [DecidableEq ν] in
/-- A message that was split is one of those with an address. -/
theorem Addressed.mem_family {addr : ν → SocketAddr} {s : Network ν W} {log : Log ν}
    (h : Addressed A addr s log) {i : ν} {dst : SocketAddr} {o : Original}
    (hmem : (i, dst, o) ∈ addressings log) : o ∈ family log := by
  rw [← h.messages]
  exact List.mem_map.mpr ⟨_, hmem, rfl⟩

/-! ## One message for each packet -/

section Fresh

variable {addr : ν → SocketAddr} {events : List (Event ν)} {s : Network ν W} {log : Log ν}

/-- What is known of a run with an id of its own for every message. -/
structure Unique (W : Wire) (log : Log ν) : Prop where
  split : ∀ {i dst o}, (i, dst, o) ∈ addressings log → o.Split W
  same : ∀ {i dst o i' dst' o'}, (i, dst, o) ∈ addressings log → (i', dst', o') ∈ addressings log →
    o.id = o'.id → i = i' ∧ dst = dst' ∧ o = o'

theorem unique_of_run (hpacket : W.packet.Lawful) (hfresh : FreshIds events)
    (hrun : (chronicle W A).run (new W addr) events = some (s, log)) : Unique W log := by
  obtain ⟨hsplit, hids, -⟩ := family_of_run hpacket hfresh hrun
  have haddressed := addressed_of_run hrun
  refine ⟨fun hmem => hsplit _ (haddressed.mem_family hmem), fun hmem hmem' hid => ?_⟩
  rw [← haddressed.messages, List.map_map] at hids
  have hsame := List.inj_on_of_nodup_map hids hmem hmem' hid
  simpa only [Prod.mk.injEq] using hsame

omit [DecidableEq ν] in
/-- A packet with the id of another is of the same message, sent by the same node for the same
destination. -/
theorem Unique.of_packet (h : Unique W log) {i i' : ν} {dst dst' : SocketAddr} {o o' : Original}
    (hmem : (i, dst, o) ∈ addressings log) (hmem' : (i', dst', o') ∈ addressings log)
    {p p' : Packet} (hp : p ∈ o.packets) (hp' : p' ∈ o'.packets) (hid : p.id = p'.id) :
    i = i' ∧ dst = dst' ∧ o = o' := by
  apply h.same hmem hmem'
  rw [← (h.split hmem).fragments.id_eq p hp, hid, (h.split hmem').fragments.id_eq p' hp']

/-- **The packets of an outbox** go to one address each. -/
theorem one_address_of_run (hpacket : W.packet.Lawful) (hfresh : FreshIds events)
    (hrun : (chronicle W A).run (new W addr) events = some (s, log)) (i : ν) :
    GDUdp.OneAddress (operations i log) := by
  have haddressed := addressed_of_run hrun
  have hunique := unique_of_run hpacket hfresh hrun
  intro d p d' p' hmem hmem' hid hn
  obtain ⟨dst, o, ho, hp, -, hd⟩ := haddressed.sends i d p (mem_operations.mp hmem)
  obtain ⟨dst', o', ho', hp', -, hd'⟩ := haddressed.sends i d' p' (mem_operations.mp hmem')
  obtain ⟨-, rfl, rfl⟩ := hunique.of_packet ho ho' hp hp' hid
  rw [hd, Option.some.injEq] at hd'
  exact hd'

end Fresh

end Network

end Udp2p
