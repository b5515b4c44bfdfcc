import Udp2p.GdUdp.Drain
import Udp2p.GdUdp.Retransmission

/-!
# Is a destination given up early?

The attempts of a record count the copies sent to all its addresses together, so ten of them need
not be ten for each: a packet for many destinations is dropped when the last of them has hardly been
tried. They are ten for the address still waited for if the record has no other.

* `Paid.step` — every attempt of a record is a copy sent to one of its addresses.
* `no_destination_given_up_early` — as long as no pass gives up an address that shares its record.
* `sole_of_one_address` — which is so when the application sends each packet to one address.
* `ten_destinations_given_up` — ten first sendings use the attempts up.
-/

namespace Udp2p

namespace GDUdp

variable {c : ByteRep Packet} {A : AddrText}

/-- A copy of packet `n` of message `id` for an address of the set. -/
def CopiesAmong (id : InnerKey) (n : Nat) (s : HashSet SocketAddr) (x : Datagram c) : Prop :=
  x.packet.id = id ∧ x.packet.n = n ∧ x.dest ∈ s

instance (id : InnerKey) (n : Nat) (s : HashSet SocketAddr) :
    DecidablePred (CopiesAmong (c := c) id n s) :=
  fun x => inferInstanceAs (Decidable (x.packet.id = id ∧ x.packet.n = n ∧ x.dest ∈ s))

/-- Every attempt of a record is a copy sent to one of its addresses. -/
def Paid (g : GDUdp) (outs : List (Datagram c)) : Prop :=
  ∀ id n e, g.entry id n = some e → e.attempts ≤ outs.countP fun x => CopiesAmong id n e.sentSet x

/-- A pass that finds a record out of attempts, and an address of it that has not acknowledged,
finds no other address there. -/
def GivesUpSole (g : GDUdp) (op : Op) : Prop :=
  op = .maintain → ∀ id n e, g.entry id n = some e → 10 ≤ e.attempts →
    ∀ d ∈ e.resend, ∀ d' ∈ e.sentSet, d' = d

theorem countP_copiesAmong_mono {id : InnerKey} {n : Nat} {s s' : HashSet SocketAddr}
    (h : ∀ d ∈ s, d ∈ s') (outs : List (Datagram c)) :
    outs.countP (fun x => CopiesAmong id n s x) ≤ outs.countP fun x => CopiesAmong id n s' x := by
  apply List.countP_mono_left
  intro x _ hx
  obtain ⟨hid, hn, hd⟩ := of_decide_eq_true hx
  exact decide_eq_true ⟨hid, hn, h x.dest hd⟩

section Total

variable (hc : c.Total)
include hc

/-- Sending a packet pays for the attempt it costs. -/
theorem Paid.sendReliable {g : GDUdp} {outs : List (Datagram c)} (h : Paid g outs)
    (peer : SocketAddr) (packet : Packet) :
    Paid (sendReliable c g peer packet).1 (outs ++ (sendReliable c g peer packet).2) := by
  obtain ⟨bytes, hbytes⟩ := hc.exists_bytes packet
  have hout : (GDUdp.sendReliable c g peer packet).2 = [⟨packet, bytes, peer, hbytes⟩] :=
    transmit_eq c hbytes peer
  intro id n e he
  rw [hout, List.countP_append]
  rw [entry_sendReliable] at he
  split at he
  · next hsame =>
    obtain ⟨rfl, rfl⟩ := hsame
    cases he
    -- the copy just sent goes to an address of the record
    have hmem : peer ∈ (afterSend peer packet (g.entry packet.id packet.n)).sentSet := by
      rw [afterSend_sentSet]
      exact HashSet.mem_insert.mpr (Or.inl rfl)
    have hnew : CopiesAmong packet.id packet.n
        (afterSend peer packet (g.entry packet.id packet.n)).sentSet
        (⟨packet, bytes, peer, hbytes⟩ : Datagram c) := ⟨rfl, rfl, hmem⟩
    rw [List.countP_singleton, if_pos (decide_eq_true hnew)]
    cases hold : g.entry packet.id packet.n with
    | none => exact Nat.le_add_left 1 _
    | some e =>
      apply Nat.add_le_add_right
      calc e.attempts ≤ outs.countP fun x => CopiesAmong packet.id packet.n e.sentSet x :=
            h _ _ e hold
        _ ≤ outs.countP fun x => CopiesAmong packet.id packet.n (e.sent peer).sentSet x :=
            countP_copiesAmong_mono (fun d hd => HashSet.mem_insert.mpr (Or.inr hd)) outs
  · exact Nat.le_add_right_of_le (h id n e he)

/-- A pass pays for the attempts it costs. -/
theorem Paid.maintain {g : GDUdp} {outs : List (Datagram c)} (hwf : g.WellFormed)
    (h : Paid g outs) : Paid (maintain c g).1 (outs ++ (maintain c g).2) := by
  intro id n e' he'
  obtain ⟨e, he, hkept, rfl⟩ := entry_before_maintain c hwf he'
  -- all copies a pass sends of the packet go to addresses of the record
  have hsame : (GDUdp.maintain c g).2.countP (fun x => x.packet.id = id ∧ x.packet.n = n) ≤
      (GDUdp.maintain c g).2.countP fun x => CopiesAmong id n e.sentSet x := by
    apply List.countP_mono_left
    intro x hx hpacket
    obtain ⟨rfl, rfl⟩ := of_decide_eq_true hpacket
    obtain ⟨e₀, he₀, -, -, hdest⟩ := mem_maintain c hwf hx
    rw [he, Option.some.injEq] at he₀
    subst he₀
    exact decide_eq_true ⟨rfl, rfl, (Entry.mem_resend.mp hdest).1⟩
  rw [countP_maintain_packet hc hwf he hkept] at hsame
  rw [List.countP_append]
  exact Nat.add_le_add (h id n e he) hsame

/-- **Step.** -/
theorem Paid.step {g g' : GDUdp} {outs out : List (Datagram c)} (hwf : g.WellFormed)
    (h : Paid g outs) {op : Op} (hstep : (machine c A).step g op = some (g', out)) :
    Paid g' (outs ++ out) := by
  cases op with
  | sendReliable peer packet =>
    cases hstep
    exact h.sendReliable hc peer packet
  | processAck id n src =>
    obtain ⟨hack, rfl⟩ := processAck_of_step c hstep
    intro id' n' e' he'
    rw [List.append_nil]
    -- an ack changes neither the attempts nor the sent set
    obtain ⟨e, acks, he, rfl⟩ := entry_before_processAck hack he'
    exact h id' n' e he
  | maintain =>
    have hpass := h.maintain hc hwf
    rw [maintain_of_step c hstep] at hpass
    exact hpass

/-- **Run.** -/
theorem paid_of_run {addr : SocketAddr} {ops : List Op} {g : GDUdp} {outs : List (Datagram c)}
    (hrun : (machine c A).run (new addr) ops = some (g, outs)) : Paid g outs := by
  have hboth : g.WellFormed ∧ Paid g outs := by
    refine (machine c A).run_history (P := fun g _ outs => g.WellFormed ∧ Paid g outs)
      (A := fun _ => True) ?_ ⟨wellFormed_new addr, ?_⟩ (fun _ _ => trivial) hrun
    · intro g _ outs op g' out h _ hstep
      exact ⟨h.1.step c hstep, h.2.step hc h.1 hstep⟩
    · intro id n e he
      rw [entry_new] at he
      cases he
  exact hboth.2

/-- **No destination is given up early** in a run whose passes give up no address that shares its
record: a pass that removes a record leaves no address of it behind that has neither acknowledged
nor been sent ten copies. -/
theorem no_destination_given_up_early {addr : SocketAddr} {ops : List Op}
    (hsole : (machine c A).Always GivesUpSole (new addr) ops) {before after : List Op}
    (hops : ops = before ++ .maintain :: after) {g : GDUdp} {outs : List (Datagram c)}
    (hrun : (machine c A).run (new addr) before = some (g, outs)) :
    ∀ id n e, g.entry id n = some e → (maintain c g).1.entry id n = none →
      ∀ d ∈ e.sentSet, d ∈ e.ackSet ∨ 10 ≤ outs.countP fun x => x.Copies id n d := by
  rw [hops, (machine c A).always_append_of_run hrun] at hsole
  have hsole' : GivesUpSole g .maintain := hsole.2.1
  intro id n e he hremoved d hd
  by_cases hack : d ∈ e.ackSet
  · exact Or.inl hack
  · apply Or.inr
    have hwaiting : d ∈ e.resend := Entry.mem_resend.mpr ⟨hd, hack⟩
    -- the record is not settled, so its attempts are used up
    have hten : 10 ≤ e.attempts := by
      rw [entry_maintain c (wellFormed_of_run c hrun), he] at hremoved
      have hkept : ¬ e.Kept := by
        intro hkept
        simp [Option.filter, hkept] at hremoved
      rcases not_not.mp (mt Entry.kept_iff.mpr hkept) with hsame | hten
      · exact absurd ((hsame d).mp hd) hack
      · exact hten
    have hpaid := paid_of_run hc hrun id n e he
    have honly : outs.countP (fun x => CopiesAmong id n e.sentSet x) ≤
        outs.countP fun x => x.Copies id n d := by
      apply List.countP_mono_left
      intro x _ hx
      obtain ⟨hid, hn, hdest⟩ := of_decide_eq_true hx
      exact decide_eq_true ⟨hid, hn, hsole' rfl id n e he hten d hwaiting x.dest hdest⟩
    exact hten.trans (hpaid.trans honly)

end Total

/-! ## One address for each packet -/

/-- If the application sends each packet to one address only, no record has two. -/
theorem sole_of_one_address (addrOf : InnerKey → Nat → SocketAddr) {addr : SocketAddr}
    {ops : List Op}
    (hone : ∀ op ∈ ops, ∀ peer packet, op = .sendReliable peer packet →
      peer = addrOf packet.id packet.n) :
    (machine c A).Always GivesUpSole (new addr) ops := by
  refine (machine c A).always_of_invariant (P := fun g => g.WellFormed ∧
      ∀ id n e, g.entry id n = some e → ∀ d ∈ e.sentSet, d = addrOf id n)
    ?_ ?_ ⟨wellFormed_new addr, ?_⟩ hone
  · intro g op g' out hinv hop hstep
    obtain ⟨hwf, haddr⟩ := hinv
    refine ⟨hwf.step c hstep, fun id n e' he' d hd => ?_⟩
    cases op with
    | sendReliable peer packet =>
      have hg' : (GDUdp.sendReliable c g peer packet).1 = g' :=
        congrArg Prod.fst (Option.some.inj hstep)
      rw [← hg', entry_sendReliable] at he'
      split at he'
      · next hsame =>
        obtain ⟨rfl, rfl⟩ := hsame
        cases he'
        rw [afterSend_sentSet] at hd
        rcases HashSet.mem_insert.mp hd with rfl | hold
        · exact hop d packet rfl
        · cases hentry : g.entry packet.id packet.n with
          | none =>
            rw [hentry] at hold
            exact absurd hold (HashSet.notMem_empty d)
          | some e =>
            rw [hentry] at hold
            exact haddr _ _ e hentry d hold
      · exact haddr id n e' he' d hd
    | processAck id' n' src =>
      obtain ⟨hack, rfl⟩ := processAck_of_step c hstep
      obtain ⟨e, acks, he, rfl⟩ := entry_before_processAck hack he'
      exact haddr id n e he d hd
    | maintain =>
      have hg' : (GDUdp.maintain c g).1 = g' := congrArg Prod.fst (maintain_of_step c hstep)
      rw [← hg'] at he'
      obtain ⟨e, he, -, rfl⟩ := entry_before_maintain c hwf he'
      exact haddr id n e he d hd
  · intro g op hinv _ _ id n e he _ d hd d' hd'
    have hd := hinv.2 id n e he d (Entry.mem_resend.mp hd).1
    exact (hinv.2 id n e he d' hd').trans hd.symm
  · intro id n e he
    rw [entry_new] at he
    cases he

/-- One sending and nine passes: the tenth pass gives the packet up. -/
def oneSending : List Op := .sendReliable destination somePacket :: List.replicate 9 .maintain

theorem one_destination_not_given_up_early : ∃ g outs,
    (machine someCodec .standard).run (new destination) oneSending = some (g, outs) ∧
    ∀ id n e, g.entry id n = some e → (maintain someCodec g).1.entry id n = none →
      ∀ d ∈ e.sentSet, d ∈ e.ackSet ∨ 10 ≤ outs.countP fun x => x.Copies id n d := by
  obtain ⟨g, outs, hpasses⟩ := run_passes (c := someCodec) (A := .standard)
    (sendReliable someCodec (new destination) destination somePacket).1 9
  have hrun : (machine someCodec .standard).run (new destination) oneSending = some (g, _) :=
    (machine someCodec .standard).run_cons_eq_some.mpr ⟨_, _, outs, rfl, hpasses, rfl⟩
  have hsole : (machine someCodec .standard).Always GivesUpSole (new destination)
      (oneSending ++ [.maintain]) := by
    apply sole_of_one_address fun _ _ => destination
    intro op hop peer packet heq
    subst heq
    simp [oneSending] at hop
    exact hop.1
  exact ⟨g, _, hrun, no_destination_given_up_early someCodec_total hsole rfl hrun⟩

/-! ## Ten addresses for one packet -/

def destinationNo (i : UInt8) : SocketAddr := .v4 ⟨10, 0, 0, i⟩ 9292

/-- One packet for ten addresses. -/
def tenSendings : List Op :=
  [1, 2, 3, 4, 5, 6, 7, 8, 9, 10].map fun i => .sendReliable (destinationNo i) somePacket

/-- The next pass drops the packet, though each address was sent one copy and none acknowledged. -/
theorem ten_destinations_given_up :
    ¬ ∀ (c : ByteRep Packet) (A : AddrText) (addr : SocketAddr) (ops : List Op) (g : GDUdp)
      (outs : List (Datagram c)), c.Total → (machine c A).run (new addr) ops = some (g, outs) →
      ∀ id n e, g.entry id n = some e → (maintain c g).1.entry id n = none →
        ∀ d ∈ e.sentSet, d ∈ e.ackSet ∨ 10 ≤ outs.countP fun x => x.Copies id n d := by
  intro hall
  have hsome : ((machine someCodec .standard).run (new destination) tenSendings).isSome := rfl
  obtain ⟨⟨g, outs⟩, hrun⟩ := Option.isSome_iff_exists.mp hsome
  have hentry : (((machine someCodec .standard).run (new destination) tenSendings).bind fun r =>
      (r.1.entry somePacket.id somePacket.n).map fun e =>
        (e.attempts, e.ackSet.toList, decide (destinationNo 1 ∈ e.sentSet))) =
      some (10, [], true) := by decide
  have hcopies : ((machine someCodec .standard).run (new destination) tenSendings).map (fun r =>
      r.2.countP fun x => x.Copies somePacket.id somePacket.n (destinationNo 1)) = some 1 := by
    decide
  rw [hrun, Option.bind_some, Option.map_eq_some_iff] at hentry
  rw [hrun, Option.map_some, Option.some.injEq] at hcopies
  obtain ⟨e, he, heq⟩ := hentry
  simp only [Prod.mk.injEq, decide_eq_true_eq] at heq
  obtain ⟨hattempts, hacks, hsent⟩ := heq
  have hremoved : (maintain someCodec g).1.entry somePacket.id somePacket.n = none := by
    rw [entry_maintain _ (wellFormed_of_run _ hrun), he]
    simp [Option.filter, Entry.Kept, hattempts]
  rcases hall _ _ _ _ g outs someCodec_total hrun _ _ e he hremoved (destinationNo 1)
    hsent with hack | hten
  · rw [HashSet.mem_def, hacks] at hack
    exact absurd hack List.not_mem_nil
  · rw [hcopies] at hten
    exact absurd hten (by decide)

end GDUdp

end Udp2p
