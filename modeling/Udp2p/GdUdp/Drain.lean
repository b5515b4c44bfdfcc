import Udp2p.GdUdp.Maintenance

/-!
# Does the outbox drain?

Once the application stops sending, every pass drops a record or raises its attempts, with one
exception: a record that all its destinations and some other address have acknowledged is neither
settled (the sets differ) nor resent (nobody is left to resend to). Such a record is `Stuck`, and
it stays for ever.

* `outbox_drains_iff` — ten passes empty the outbox iff none of them meets a stuck record.
* `stray_ack_blocks_drain` — one ack from a bystander is enough.
-/

namespace Udp2p

/-- Attempts are left, and the addresses that acknowledged are all the destinations and more. -/
def Entry.Stuck (e : Entry) : Prop := e.attempts < 10 ∧ e.sentSet.ProperSubset e.ackSet

namespace GDUdp

variable (c : ByteRep Packet) (A : AddrText)

/-- An operation that is no sending of the application. -/
def Op.Quiet (op : Op) : Prop := ∀ peer packet, op ≠ .sendReliable peer packet

/-- No pass is made over a stuck record. -/
def Drains (g : GDUdp) (op : Op) : Prop :=
  op = .maintain → ∀ id n e, g.entry id n = some e → ¬ e.Stuck

/-- Every record has been sent more than `k` times, and `k` is below the limit. -/
def Aged (k : Nat) (g : GDUdp) : Prop :=
  ∀ id n e, g.entry id n = some e → k < e.attempts ∧ k < 10

variable {c A}

/-! ## One step -/

/-- An ack ages nothing. -/
theorem Aged.processAck {k : Nat} {g g' : GDUdp} (h : Aged k g) {id : InnerKey} {n : Nat}
    {src : AddressBytes} (hack : GDUdp.processAck A g id n src = some g') : Aged k g' := by
  intro id' n' e' he'
  obtain ⟨e, acks, he, rfl⟩ := entry_before_processAck hack he'
  exact h id' n' e he

/-- A pass that meets no stuck record ages every record it keeps. -/
theorem Aged.maintain {k : Nat} {g : GDUdp} (hwf : g.WellFormed) (h : Aged k g)
    (hdrains : Drains g .maintain) : Aged (k + 1) (GDUdp.maintain c g).1 := by
  intro id n e he
  obtain ⟨e', he', hkept, rfl⟩ := entry_before_maintain c hwf he
  -- a record that is kept and not stuck has somebody left to resend to
  have hresend : e'.resend.toList ≠ [] := by
    apply HashSet.difference_ne_nil hkept.1
    intro hsub
    exact hdrains rfl id n e' he' ⟨hkept.2, hsub⟩
  have hpos := List.length_pos_iff.mpr hresend
  have hold := h id n e' he'
  have hlimit := hkept.2
  show k + 1 < e'.attempts + e'.resend.toList.length ∧ k + 1 < 10
  omega

/-- A stuck record stays stuck, whatever is acknowledged and however often the outbox is
maintained. -/
theorem stuck_step {g g' : GDUdp} (hwf : g.WellFormed) {op : Op} {out : List (Datagram c)}
    (hquiet : op.Quiet) (hstep : (machine c A).step g op = some (g', out)) {id : InnerKey}
    {n : Nat} {e : Entry} (he : g.entry id n = some e) (hstuck : e.Stuck) :
    ∃ e', g'.entry id n = some e' ∧ e'.Stuck := by
  obtain ⟨hlimit, hall, a, hack, hsent⟩ := hstuck
  cases op with
  | sendReliable peer packet => exact absurd rfl (hquiet peer packet)
  | processAck id' n' src =>
    obtain ⟨hstep', rfl⟩ := processAck_of_step c hstep
    obtain ⟨d, -, hentry⟩ := entry_processAck hstep'
    rw [hentry]
    by_cases hsame : id = id' ∧ n = n'
    · obtain ⟨rfl, rfl⟩ := hsame
      refine ⟨e.acked d, by simp [he], hlimit, fun b hb => ?_, a, ?_, hsent⟩
      · exact HashSet.mem_insert.mpr (Or.inr (hall b hb))
      · exact HashSet.mem_insert.mpr (Or.inr hack)
    · exact ⟨e, by simp [hsame, he], hlimit, hall, a, hack, hsent⟩
  | maintain =>
    -- the sets differ by `a`, so the record is kept, and nobody is left to resend to
    have hkept : e.Kept := ⟨fun hsame => hsent ((hsame a).mpr hack), hlimit⟩
    have hnobody : e.resend.toList = [] := HashSet.difference_toList_eq_nil.mpr hall
    have hentry := entry_maintain c hwf id n
    rw [maintain_of_step c hstep, he] at hentry
    refine ⟨e, ?_, hlimit, hall, a, hack, hsent⟩
    simpa [Option.filter, hkept, hnobody] using hentry

/-! ## Runs -/

/-- **Run.** Without sendings, a run that meets no stuck record before a pass ages the outbox by the
number of its passes, and any other run ends with a stuck record. -/
theorem run_quiet {g g' : GDUdp} (hwf : g.WellFormed) {k : Nat} (haged : Aged k g)
    {more : List Op} (hquiet : ∀ op ∈ more, op.Quiet) {outs : List (Datagram c)}
    (hrun : (machine c A).run g more = some (g', outs)) :
    ((machine c A).Always Drains g more → Aged (k + more.count .maintain) g') ∧
    (¬ (machine c A).Always Drains g more → ∃ id n e, g'.entry id n = some e ∧ e.Stuck) := by
  induction more using List.reverseRecOn generalizing g' outs with
  | nil =>
    cases hrun
    exact ⟨fun _ => haged, fun h => absurd trivial h⟩
  | append_singleton more op ih =>
    obtain ⟨t, o₁, o₂, hmore, hop, rfl⟩ := (machine c A).run_concat_eq_some.mp hrun
    have hbefore := ih (fun op' hop' => hquiet op' (List.mem_append_left _ hop')) hmore
    have hwf' : t.WellFormed := (machine c A).run_induct (fun _ _ _ _ h hs => h.step c hs) hwf hmore
    have hq : op.Quiet := hquiet op (by simp)
    rw [(machine c A).always_concat_of_run hmore, List.count_append]
    constructor
    · intro h
      obtain ⟨halways, hlast⟩ := h
      have hold := hbefore.1 halways
      cases op with
      | sendReliable peer packet => exact absurd rfl (hq peer packet)
      | processAck id n src =>
        obtain ⟨hack, rfl⟩ := processAck_of_step c hop
        simpa using hold.processAck hack
      | maintain =>
        have hnew := hold.maintain (c := c) hwf' hlast
        rw [maintain_of_step c hop] at hnew
        simpa [Nat.add_assoc] using hnew
    · intro hnot
      -- stuck before the last operation already, or the last one is the pass that meets it
      by_cases halways : (machine c A).Always Drains g more
      · have hlast : ¬ Drains t op := fun h => hnot ⟨halways, h⟩
        simp only [Drains, not_forall, not_not] at hlast
        obtain ⟨-, id, n, e, he, hstuck⟩ := hlast
        exact ⟨id, n, stuck_step hwf' hq hop he hstuck⟩
      · obtain ⟨id, n, e, he, hstuck⟩ := hbefore.2 halways
        exact ⟨id, n, stuck_step hwf' hq hop he hstuck⟩

/-- **The outbox drains**, exactly: from every state reached, after the last sending, ten passes
with any acks between them leave it empty iff no pass meets a stuck record. -/
theorem outbox_drains_iff {addr : SocketAddr} {before : List Op} {g : GDUdp}
    {outs : List (Datagram c)} (hrun : (machine c A).run (new addr) before = some (g, outs))
    {more : List Op} (hquiet : ∀ op ∈ more, ∀ peer packet, op ≠ .sendReliable peer packet)
    (hten : more.count .maintain = 10) {g' : GDUdp} {outs' : List (Datagram c)}
    (hmore : (machine c A).run g more = some (g', outs')) :
    g'.outbox.isEmpty = true ↔ (machine c A).Always Drains g more := by
  have hwf := wellFormed_of_run c hrun
  have hwf' : g'.WellFormed := (machine c A).run_induct (fun _ _ _ _ h hs => h.step c hs) hwf hmore
  have haged : Aged 0 g := fun _ _ e _ => ⟨e.tried, by decide⟩
  obtain ⟨hgood, hbad⟩ := run_quiet hwf haged hquiet hmore
  rw [hwf'.isEmpty_iff]
  constructor
  · intro hempty
    by_contra hnot
    obtain ⟨id, n, e, he, -⟩ := hbad hnot
    rw [hempty] at he
    cases he
  · intro halways id n
    have hten' := hgood halways
    rw [hten, Nat.zero_add] at hten'
    cases he : g'.entry id n with
    | none => rfl
    | some e => exact absurd (hten' id n e he).2 (Nat.lt_irrefl 10)

/-! ## A bystander's ack -/

def bystander : SocketAddr := .v4 ⟨10, 0, 0, 3⟩ 9292

/-- A packet is sent to one address, and acknowledged by it and by another one. -/
def strayAck : List Op :=
  [.sendReliable destination somePacket,
   .processAck somePacket.id somePacket.n (AddrText.standard.textBytes destination),
   .processAck somePacket.id somePacket.n (AddrText.standard.textBytes bystander)]

def tenPasses : List Op := List.replicate 10 .maintain

theorem quiet_tenPasses (op : Op) (hop : op ∈ tenPasses) (peer : SocketAddr) (packet : Packet) :
    op ≠ .sendReliable peer packet := by
  rw [List.eq_of_mem_replicate hop]
  exact Op.noConfusion

/-- Passes return, however many there are. -/
theorem run_passes (g : GDUdp) (k : Nat) :
    ∃ g' outs, (machine c A).run g (List.replicate k .maintain) = some (g', outs) := by
  induction k generalizing g with
  | zero => exact ⟨g, [], rfl⟩
  | succ k ih =>
    obtain ⟨g', outs, hrun⟩ := ih (GDUdp.maintain c g).1
    exact ⟨g', _, (machine c A).run_cons_eq_some.mpr ⟨_, _, outs, rfl, hrun, rfl⟩⟩

theorem strayAck_stuck (c : ByteRep Packet) : ∃ g outs,
    (machine c .standard).run (new destination) strayAck = some (g, outs) ∧
      ∃ e, g.entry somePacket.id somePacket.n = some e ∧ e.Stuck := by
  have hsent : (sendReliable c (new destination) destination somePacket).1.entry somePacket.id
      somePacket.n = some (.first destination somePacket) := by
    simp [entry_sendReliable, entry_new, afterSend]
  obtain ⟨g, hg, he⟩ :=
    processAck_of_entry (AddrText.standard.parseBytes_textBytes ⟨10, 0, 0, 2⟩ 9292) hsent
  obtain ⟨g', hg', he'⟩ :=
    processAck_of_entry (AddrText.standard.parseBytes_textBytes ⟨10, 0, 0, 3⟩ 9292) he
  refine ⟨g', transmit c destination somePacket, ?_, _, he', ?_⟩
  · have hack : (machine c .standard).run g [.processAck somePacket.id somePacket.n
        (AddrText.standard.textBytes bystander)] = some (g', []) :=
      (machine c .standard).run_singleton_eq_some.mpr (congrArg (Option.map fun g => (g, [])) hg')
    refine (machine c .standard).run_cons_eq_some.mpr ⟨_, _, [], rfl, ?_, (List.append_nil _).symm⟩
    exact (machine c .standard).run_cons_eq_some.mpr
      ⟨g, [], [], congrArg (Option.map fun g => (g, [])) hg, hack, rfl⟩
  · exact ⟨by decide, by decide, bystander, by decide, by decide⟩

theorem stray_ack_drains_iff : ∃ g outs g' outs',
    (machine someCodec .standard).run (new destination) strayAck = some (g, outs) ∧
    (machine someCodec .standard).run g tenPasses = some (g', outs') ∧
    (g'.outbox.isEmpty = true ↔ (machine someCodec .standard).Always Drains g tenPasses) := by
  obtain ⟨g, outs, hrun, -⟩ := strayAck_stuck someCodec
  obtain ⟨g', outs', hmore⟩ := run_passes (c := someCodec) (A := .standard) g 10
  exact ⟨g, outs, g', outs', hrun, hmore,
    outbox_drains_iff hrun quiet_tenPasses (by decide) hmore⟩

/-- The acks of a destination and of a bystander leave a record that no number of passes drops. -/
theorem stray_ack_blocks_drain :
    ¬ ∀ (c : ByteRep Packet) (A : AddrText) (addr : SocketAddr) (before more : List Op)
      (g g' : GDUdp) (outs outs' : List (Datagram c)),
      (machine c A).run (new addr) before = some (g, outs) →
      (∀ op ∈ more, ∀ peer packet, op ≠ .sendReliable peer packet) →
      more.count .maintain = 10 → (machine c A).run g more = some (g', outs') →
      g'.outbox.isEmpty = true := by
  intro hall
  obtain ⟨g, outs, hrun, e, he, hstuck⟩ := strayAck_stuck someCodec
  obtain ⟨g', outs', hmore⟩ := run_passes (c := someCodec) (A := .standard) g 10
  have hempty := hall _ _ _ _ _ _ _ _ _ hrun quiet_tenPasses (by decide) hmore
  have hwf := wellFormed_of_run _ hrun
  have hwf' : g'.WellFormed :=
    (machine someCodec .standard).run_induct (fun _ _ _ _ h hs => h.step _ hs) hwf hmore
  have hnot : ¬ (machine someCodec .standard).Always Drains g tenPasses :=
    fun h => h.1 rfl _ _ _ he hstuck
  obtain ⟨-, hbad⟩ := run_quiet hwf (fun _ _ e _ => ⟨e.tried, by decide⟩) quiet_tenPasses hmore
  obtain ⟨id, n, e', he', -⟩ := hbad hnot
  rw [hwf'.isEmpty_iff.mp hempty] at he'
  cases he'

end GDUdp

end Udp2p
