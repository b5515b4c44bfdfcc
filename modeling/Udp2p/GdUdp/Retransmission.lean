import Udp2p.GdUdp.Maintenance

/-!
# Retransmission: what a pass sends, and how often over a run

`ExactPass` collects what one pass does to the outbox and to the socket. Over a run, one invariant
bounds the retransmissions: every copy that `maintain` sends of a packet costs one of the ten
attempts of its record, of which the first sending used one; and an address that has acknowledged
gets no copy, since ack sets never shrink.

* `retransmission_exact_and_bounded` — exact passes in every reached state, at most nine copies to
  any one destination while the record is there, none after its ack.
-/

namespace Udp2p

namespace GDUdp

variable (c : ByteRep Packet) {A : AddrText}

/-- What a pass over `g` does: it drops exactly the settled and the given-up records, re-creates
none, sends each other packet once to everyone in its sent set but not in its ack set and to nobody
else, and counts these sendings. -/
structure ExactPass (g : GDUdp) : Prop where
  drops : ∀ id n, ((maintain c g).1.entry id n).isSome ↔
    ∃ e, g.entry id n = some e ∧ ¬ (e.sentSet.Same e.ackSet ∨ 10 ≤ e.attempts)
  leaves : ∀ id n e e', g.entry id n = some e → (maintain c g).1.entry id n = some e' →
    e'.sentSet = e.sentSet ∧ e'.ackSet = e.ackSet ∧ e'.packet = e.packet ∧
      e'.attempts = e.attempts +
        (maintain c g).2.countP fun x => x.packet.id = id ∧ x.packet.n = n
  transmits : ∀ id n d, (maintain c g).2.countP (fun x => x.Copies id n d) =
    if ∃ e, (maintain c g).1.entry id n = some e ∧ d ∈ e.sentSet ∧ d ∉ e.ackSet then 1 else 0
  carries : ∀ x ∈ (maintain c g).2,
    ∃ e, g.entry x.packet.id x.packet.n = some e ∧ x.packet = e.packet

/-- Is the record of packet `n` of message `id` there? -/
def Present (id : InnerKey) (n : Nat) (g : GDUdp) (_ : Op) : Prop := (g.entry id n).isSome

section Total

variable {c} (hc : c.Total)
include hc

/-- The number of datagrams a pass sends for a record it keeps. -/
theorem countP_maintain_packet {g : GDUdp} (h : g.WellFormed) {id : InnerKey} {n : Nat}
    {e : Entry} (he : g.entry id n = some e) (hkept : e.Kept) :
    (maintain c g).2.countP (fun x => x.packet.id = id ∧ x.packet.n = n) =
      e.resend.toList.length := by
  have hcount := countP_resendings h.expire id n fun _ => true
  rw [entry_expire, he, Option.filter_some, if_pos (decide_eq_true hkept), Option.map_some,
    if_pos hkept.2, Option.getD_some, List.countP_true, ← map_maintain hc,
    List.countP_map] at hcount
  simp only [Bool.and_true] at hcount
  exact hcount

theorem exactPass {g : GDUdp} (h : g.WellFormed) : ExactPass c g where
  drops id n := by
    rw [entry_maintain c h, Option.isSome_map]
    simp only [← Entry.kept_iff]
    cases g.entry id n with
    | none => simp
    | some e => by_cases hkept : e.Kept <;> simp [Option.filter, hkept]
  leaves id n e e' he he' := by
    obtain ⟨e₀, he₀, hkept, rfl⟩ := entry_before_maintain c h he'
    cases he.symm.trans he₀
    rw [countP_maintain_packet hc h he hkept]
    exact ⟨rfl, rfl, rfl, rfl⟩
  transmits id n d := by
    rw [countP_maintain hc h, entry_maintain c h]
    cases g.entry id n with
    | none => simp
    | some e =>
      by_cases hkept : e.Kept
      · simp [Option.filter, hkept, Entry.mem_resend, Entry.resent]
      · simp [Option.filter, hkept]
  carries x hx := by
    obtain ⟨e, he, -, hpacket, -⟩ := mem_maintain c h hx
    exact ⟨e, he, hpacket.symm⟩

/-! ## One step, seen from one record -/

/-- One step, with the sendings of the application left out: at most one copy goes to `d`, only
while there are attempts left and `d` has not acknowledged, and it costs an attempt. -/
theorem step_record {g g' : GDUdp} (h : g.WellFormed) {op : Op} {out : List (Datagram c)}
    (hstep : (machine c A).step g op = some (g', out)) {id : InnerKey} {n : Nat} {e : Entry}
    (he : g.entry id n = some e) (d : SocketAddr) :
    let copies := (if op = .maintain then out else []).countP fun x => x.Copies id n d
    copies ≤ 1 ∧ (0 < copies → e.attempts < 10 ∧ d ∉ e.ackSet) ∧
      ∀ e', g'.entry id n = some e' →
        e.attempts + copies ≤ e'.attempts ∧ ∀ a ∈ e.ackSet, a ∈ e'.ackSet := by
  cases op with
  | sendReliable peer packet =>
    refine ⟨Nat.zero_le 1, fun hpos => absurd hpos (Nat.lt_irrefl 0), fun e' he' => ?_⟩
    have hg' : (sendReliable c g peer packet).1 = g' := congrArg Prod.fst (Option.some.inj hstep)
    rw [← hg', entry_sendReliable] at he'
    split at he'
    · next hsame =>
      obtain ⟨rfl, rfl⟩ := hsame
      rw [he] at he'
      cases he'
      exact ⟨Nat.le_succ e.attempts, fun a ha => ha⟩
    · rw [he] at he'
      cases he'
      exact ⟨le_rfl, fun a ha => ha⟩
  | processAck id' n' src =>
    refine ⟨Nat.zero_le 1, fun hpos => absurd hpos (Nat.lt_irrefl 0), fun e' he' => ?_⟩
    obtain ⟨hack, rfl⟩ := processAck_of_step c hstep
    obtain ⟨b, -, hentry⟩ := entry_processAck hack
    rw [hentry] at he'
    split at he'
    · next hsame =>
      obtain ⟨rfl, rfl⟩ := hsame
      rw [he] at he'
      cases he'
      exact ⟨le_rfl, fun a ha => HashSet.mem_insert.mpr (Or.inr ha)⟩
    · rw [he] at he'
      cases he'
      exact ⟨le_rfl, fun a ha => ha⟩
  | maintain =>
    have hcount := countP_maintain hc h id n d
    have hentry := entry_maintain c h id n
    rw [maintain_of_step c hstep, he] at hcount hentry
    by_cases hkept : e.Kept
    · -- kept: the attempts grow by the number of addresses resent to
      have hg' : g'.entry id n = some (e.resent e.resend.toList.length) := by
        simpa [Option.filter, hkept] using hentry
      have hcopies : out.countP (fun x => x.Copies id n d) = if d ∈ e.resend then 1 else 0 := by
        simpa [hkept] using hcount
      simp only [if_true, hcopies, hg', Option.some.injEq, forall_eq']
      by_cases hd : d ∈ e.resend
      · -- one copy for `d`, among those that raised the attempts
        have hpos : 0 < e.resend.toList.length := List.length_pos_of_mem hd
        simp only [hd, if_true]
        refine ⟨le_rfl, ?_, ?_, fun a ha => ha⟩
        · intro _
          exact ⟨hkept.2, (Entry.mem_resend.mp hd).2⟩
        · show e.attempts + 1 ≤ e.attempts + e.resend.toList.length
          exact Nat.add_le_add_left hpos e.attempts
      · simp only [hd, if_false]
        refine ⟨Nat.zero_le 1, fun hpos => absurd hpos (Nat.lt_irrefl 0), ?_, fun a ha => ha⟩
        show e.attempts + 0 ≤ e.attempts + e.resend.toList.length
        exact Nat.le_add_right e.attempts _
    · -- dropped, and nothing sent
      have hg' : g'.entry id n = none := by simpa [Option.filter, hkept] using hentry
      have hcopies : out.countP (fun x => x.Copies id n d) = 0 := by simpa [hkept] using hcount
      simp only [if_true, hcopies, hg']
      exact ⟨Nat.zero_le 1, fun hpos => absurd hpos (Nat.lt_irrefl 0), fun e' he' => nomatch he'⟩

/-! ## Runs -/

/-- **Run.** While the record is there, the copies that go to `d` are paid for with the attempts
left; and none goes to an address that has acknowledged. -/
theorem run_record {g g' : GDUdp} (h : g.WellFormed) {id : InnerKey} {n : Nat} {e : Entry}
    (he : g.entry id n = some e) (d : SocketAddr) {more : List Op}
    (hpresent : (machine c A).Always (Present id n) g more) {outs : List (Datagram c)}
    (hrun : ((machine c A).observe fun op => op = .maintain).run g more = some (g', outs)) :
    outs.countP (fun x => x.Copies id n d) ≤ 10 - e.attempts ∧
      (d ∈ e.ackSet → outs.countP (fun x => x.Copies id n d) = 0) := by
  induction more generalizing g e outs with
  | nil =>
    cases hrun
    exact ⟨Nat.zero_le _, fun _ => rfl⟩
  | cons op more ih =>
    obtain ⟨g₁, out, outs', hobs, hrest, rfl⟩ := Machine.run_cons_eq_some _ |>.mp hrun
    obtain ⟨o, hstep, rfl⟩ := (machine c A).observe_step_eq_some.mp hobs
    obtain ⟨hone, hpaid, hkeep⟩ := step_record hc h hstep he d
    simp only [decide_eq_true_eq, List.countP_append]
    have hlater := ((machine c A).always_cons_of_step hstep).mp hpresent |>.2
    cases he₁ : g₁.entry id n with
    | none =>
      -- the record was dropped, so nothing follows
      cases more with
      | nil =>
        cases hrest
        refine ⟨?_, fun hd => ?_⟩
        · simp only [List.countP_nil, Nat.add_zero]
          omega
        · simp only [List.countP_nil, Nat.add_zero]
          by_contra hne
          exact (hpaid (Nat.pos_of_ne_zero hne)).2 hd
      | cons op' more' =>
        have hthere := hlater.1
        simp [Present, he₁] at hthere
    | some e₁ =>
      obtain ⟨hcost, hacks⟩ := hkeep e₁ he₁
      obtain ⟨hle, hzero⟩ := ih (h.step c hstep) he₁ hlater hrest
      refine ⟨by omega, fun hd => ?_⟩
      rw [hzero (hacks d hd), Nat.add_zero]
      by_contra hne
      exact (hpaid (Nat.pos_of_ne_zero hne)).2 hd

/-- **Retransmission is exact and bounded.** Every pass over a reached state is exact; and as long
as the record of a packet is there, `maintain` sends the packet at most nine times to any one
destination, and not at all after an ack that names it. -/
theorem retransmission_exact_and_bounded {addr : SocketAddr} {ops : List Op} {g : GDUdp}
    {outs : List (Datagram c)} (hrun : (machine c A).run (new addr) ops = some (g, outs)) :
    ExactPass c g ∧
    ∀ id n d more g' outs', (machine c A).Always (Present id n) g more →
      ((machine c A).observe fun op => op = .maintain).run g more = some (g', outs') →
      outs'.countP (fun x => x.Copies id n d) ≤ 9 ∧
      ∀ src rest, more = .processAck id n src :: rest → A.parseBytes src = some d →
        outs'.countP (fun x => x.Copies id n d) = 0 := by
  have hwf := wellFormed_of_run c hrun
  refine ⟨exactPass hc hwf, fun id n d more g' outs' hpresent hmore => ?_⟩
  cases more with
  | nil =>
    cases hmore
    exact ⟨Nat.zero_le 9, fun _ _ _ _ => rfl⟩
  | cons op more =>
    obtain ⟨e, he⟩ := Option.isSome_iff_exists.mp (show (g.entry id n).isSome from hpresent.1)
    have htried := e.tried
    have hbound := (run_record hc hwf he d hpresent hmore).1
    refine ⟨by omega, fun src rest heq hsrc => ?_⟩
    obtain ⟨rfl, rfl⟩ := List.cons.inj heq
    -- after the ack, `d` is in the ack set for good
    obtain ⟨g₁, hack, he₁⟩ := processAck_of_entry hsrc he
    obtain ⟨g₁', out, outs₁, hobs, hrest, rfl⟩ := Machine.run_cons_eq_some _ |>.mp hmore
    obtain ⟨o, hstep, rfl⟩ := (machine c A).observe_step_eq_some.mp hobs
    have hack' := congrArg (Option.map fun g => (g, ([] : List (Datagram c)))) hack
    rw [Option.map_some] at hack'
    obtain ⟨rfl, -⟩ := Prod.mk.inj (Option.some.inj (hack'.symm.trans hstep))
    have hlater := ((machine c A).always_cons_of_step hstep).mp hpresent |>.2
    have hacked : d ∈ (e.acked d).ackSet := HashSet.mem_insert.mpr (Or.inl rfl)
    have hzero := (run_record hc (hwf.step c hstep) he₁ d hlater hrest).2 hacked
    simpa using hzero

end Total

/-! ## Two addresses, one ack -/

def otherDestination : SocketAddr := .v4 ⟨10, 0, 0, 3⟩ 9292

/-- A packet is sent to two addresses, and acknowledged by the first. -/
def halfAcked : List Op :=
  [.sendReliable destination somePacket, .sendReliable otherDestination somePacket,
   .processAck somePacket.id somePacket.n (AddrText.standard.textBytes destination)]

/-- The pass sends one copy more, to the second. -/
theorem halfAcked_retransmitted : ∃ g outs,
    (machine someCodec .standard).run (new destination) halfAcked = some (g, outs) ∧
    (∃ e, g.entry somePacket.id somePacket.n = some e ∧
      e.sentSet.toList = [otherDestination, destination] ∧ e.ackSet.toList = [destination] ∧
      e.packet = somePacket ∧ e.attempts = 2) ∧
    (maintain someCodec g).2.map (fun x => (x.dest, x.packet)) =
      [(otherDestination, somePacket)] ∧
    ExactPass someCodec g ∧
    ∀ id n d more g' outs', (machine someCodec .standard).Always (Present id n) g more →
      ((machine someCodec .standard).observe fun op => op = .maintain).run g more =
        some (g', outs') →
      outs'.countP (fun x => x.Copies id n d) ≤ 9 ∧
      ∀ src rest, more = .processAck id n src :: rest →
        AddrText.standard.parseBytes src = some d →
        outs'.countP (fun x => x.Copies id n d) = 0 := by
  have hafter : ((machine someCodec .standard).run (new destination) halfAcked).map (fun r =>
      ((r.1.entry somePacket.id somePacket.n).map fun e =>
          (e.sentSet.toList, e.ackSet.toList, e.packet, e.attempts),
        (maintain someCodec r.1).2.map fun x => (x.dest, x.packet))) =
      some (some ([otherDestination, destination], [destination], somePacket, 2),
        [(otherDestination, somePacket)]) := rfl
  obtain ⟨⟨g, outs⟩, hrun, hboth⟩ := Option.map_eq_some_iff.mp hafter
  obtain ⟨hentry, hcopies⟩ := Prod.mk.inj hboth
  obtain ⟨e, he, hrecord⟩ := Option.map_eq_some_iff.mp hentry
  simp only [Prod.mk.injEq] at hrecord
  exact ⟨g, outs, hrun, ⟨e, he, hrecord⟩, hcopies,
    retransmission_exact_and_bounded someCodec_total hrun⟩

end GDUdp

end Udp2p
