import Udp2p.GdUdp.GivingUp

/-!
# What became of a packet that was sent?

The outbox forgets a record when it is settled or given up, but what has been done to the outbox
tells which. The sent set and the ack set of a record are the addresses of its sendings and of its
acks (`Explained`). So if every packet goes to one address only, then a packet once sent is still
being sent, or acknowledged by its address, or ten copies of it were sent there.

* `Explained.step`, `explained_of_run` — where the addresses of a record come from.
* `Accounted.step`, `accounted_of_run` — what has become of each packet.
-/

namespace Udp2p

namespace GDUdp

variable {c : ByteRep Packet} {A : AddrText}

/-- A record has an address, and its addresses are those of sendings and of acks of its packet. -/
structure Explained (A : AddrText) (ops : List Op) (g : GDUdp) : Prop where
  wellFormed : g.WellFormed
  tried : ∀ {id n e}, g.entry id n = some e → ∃ d, d ∈ e.sentSet
  sent : ∀ {id n e}, g.entry id n = some e → ∀ d ∈ e.sentSet,
    ∃ p, .sendReliable d p ∈ ops ∧ p.id = id ∧ p.n = n
  acked : ∀ {id n e}, g.entry id n = some e → ∀ d ∈ e.ackSet,
    ∃ src, .processAck id n src ∈ ops ∧ A.parseBytes src = some d

theorem explained_new (addr : SocketAddr) : Explained A [] (new addr) where
  wellFormed := wellFormed_new addr
  tried h := by simp [entry_new] at h
  sent h := by simp [entry_new] at h
  acked h := by simp [entry_new] at h

/-- More operations explain no less. -/
theorem Explained.concat {ops : List Op} {g : GDUdp} (h : Explained A ops g) (op : Op) :
    Explained A (ops ++ [op]) g where
  wellFormed := h.wellFormed
  tried := h.tried
  sent he d hd := by
    obtain ⟨p, hp, hsame⟩ := h.sent he d hd
    exact ⟨p, List.mem_append_left _ hp, hsame⟩
  acked he d hd := by
    obtain ⟨src, hsrc, hparse⟩ := h.acked he d hd
    exact ⟨src, List.mem_append_left _ hsrc, hparse⟩

/-- **Step.** -/
theorem Explained.step {ops : List Op} {g g' : GDUdp} {op : Op} {out : List (Datagram c)}
    (h : Explained A ops g) (hstep : (machine c A).step g op = some (g', out)) :
    Explained A (ops ++ [op]) g' := by
  have hold := h.concat op
  have hlast : op ∈ ops ++ [op] := List.mem_append_right _ (List.mem_singleton_self _)
  cases op with
  | sendReliable peer packet =>
    have hg' : (sendReliable c g peer packet).1 = g' := congrArg Prod.fst (Option.some.inj hstep)
    have hentry := entry_sendReliable c g peer packet
    rw [hg'] at hentry
    refine ⟨h.wellFormed.step c hstep, fun {id n e'} he' => ?_, fun {id n e'} he' d hd => ?_,
      fun {id n e'} he' d hd => ?_⟩
    · rw [hentry] at he'
      split at he'
      · cases he'
        refine ⟨peer, ?_⟩
        rw [afterSend_sentSet]
        exact HashSet.mem_insert.mpr (Or.inl rfl)
      · exact h.tried he'
    · rw [hentry] at he'
      split at he'
      · next hsame =>
        obtain ⟨rfl, rfl⟩ := hsame
        cases he'
        rw [afterSend_sentSet, HashSet.mem_insert] at hd
        rcases hd with rfl | hd
        · exact ⟨packet, hlast, rfl, rfl⟩
        · cases he : g.entry packet.id packet.n with
          | none =>
            rw [he] at hd
            cases hd
          | some e =>
            rw [he] at hd
            exact hold.sent he d hd
      · exact hold.sent he' d hd
    · rw [hentry] at he'
      split at he'
      · next hsame =>
        obtain ⟨rfl, rfl⟩ := hsame
        cases he'
        -- a sending acknowledges nothing
        rw [afterSend_ackSet] at hd
        cases he : g.entry packet.id packet.n with
        | none =>
          rw [he] at hd
          cases hd
        | some e =>
          rw [he] at hd
          exact hold.acked he d hd
      · exact hold.acked he' d hd
  | processAck id' n' src =>
    obtain ⟨hack, rfl⟩ := processAck_of_step c hstep
    obtain ⟨d', hparse, hentry⟩ := entry_processAck hack
    refine ⟨h.wellFormed.step c hstep, fun {id n e'} he' => ?_, fun {id n e'} he' d hd => ?_,
      fun {id n e'} he' d hd => ?_⟩
    · obtain ⟨e, acks, he, rfl⟩ := entry_before_processAck hack he'
      exact h.tried (e := e) he
    · obtain ⟨e, acks, he, rfl⟩ := entry_before_processAck hack he'
      exact hold.sent he d hd
    · rw [hentry] at he'
      split at he'
      · next hsame =>
        obtain ⟨rfl, rfl⟩ := hsame
        obtain ⟨e, he, rfl⟩ := Option.map_eq_some_iff.mp he'
        rcases HashSet.mem_insert.mp hd with rfl | hmem
        · exact ⟨src, hlast, hparse⟩
        · exact hold.acked he d hmem
      · exact hold.acked he' d hd
  | maintain =>
    have hg' : (maintain c g).1 = g' := congrArg Prod.fst (maintain_of_step c hstep)
    refine ⟨h.wellFormed.step c hstep, fun {id n e'} he' => ?_, fun {id n e'} he' d hd => ?_,
      fun {id n e'} he' d hd => ?_⟩
    · rw [← hg'] at he'
      obtain ⟨e, he, -, rfl⟩ := entry_before_maintain c h.wellFormed he'
      exact h.tried (e := e) he
    · rw [← hg'] at he'
      obtain ⟨e, he, -, rfl⟩ := entry_before_maintain c h.wellFormed he'
      exact hold.sent he d hd
    · rw [← hg'] at he'
      obtain ⟨e, he, -, rfl⟩ := entry_before_maintain c h.wellFormed he'
      exact hold.acked he d hd

theorem explained_of_run {addr : SocketAddr} {ops : List Op} {g : GDUdp} {outs : List (Datagram c)}
    (hrun : (machine c A).run (new addr) ops = some (g, outs)) : Explained A ops g :=
  (machine c A).run_history (A := fun _ => True) (P := fun g ops _ => Explained A ops g)
    (fun _ _ _ _ _ _ h _ hstep => h.step hstep) (explained_new addr) (fun _ _ => trivial) hrun

/-- The address of the node itself stays what it was. -/
theorem addr_of_run {g g' : GDUdp} {ops : List Op} {outs : List (Datagram c)}
    (hrun : (machine c A).run g ops = some (g', outs)) : g'.addr = g.addr := by
  refine (machine c A).run_induct (P := fun t => t.addr = g.addr) ?_ rfl hrun
  intro t op t' out h hstep
  cases op with
  | sendReliable peer packet =>
    cases hstep
    exact h
  | processAck id n src =>
    obtain ⟨hack, -⟩ := processAck_of_step c hstep
    obtain ⟨d, -, ⟨rfl, -⟩ | ⟨e, map, -, rfl, -⟩⟩ := processAck_cases hack
    · exact h
    · exact h
  | maintain =>
    have ht' : (maintain c t).1 = t' := congrArg Prod.fst (maintain_of_step c hstep)
    rw [← ht', maintain_addr]
    exact h

/-! ## One address for each packet -/

/-- No packet is sent to two addresses. -/
def OneAddress (ops : List Op) : Prop :=
  ∀ d p d' p', .sendReliable d p ∈ ops → .sendReliable d' p' ∈ ops → p.id = p'.id → p.n = p'.n →
    d = d'

/-- The packet is still being sent to the address, or the address has acknowledged it, or ten copies
were sent there. -/
def Accounted (A : AddrText) (ops : List Op) (g : GDUdp) (outs : List (Datagram c))
    (d : SocketAddr) (p : Packet) : Prop :=
  (∃ e, g.entry p.id p.n = some e ∧ d ∈ e.sentSet) ∨
  (∃ src, .processAck p.id p.n src ∈ ops ∧ A.parseBytes src = some d) ∨
  10 ≤ outs.countP fun x => x.Copies p.id p.n d

/-- A record that a pass does not keep was settled or is out of attempts, and with one address
either accounts for the packet. -/
theorem accounted_of_not_kept {ops : List Op} {g : GDUdp} {outs : List (Datagram c)}
    (hexplained : Explained A ops g) (hpaid : Paid g outs) (hone : OneAddress ops)
    {d : SocketAddr} {p : Packet} (hmem : .sendReliable d p ∈ ops) {e : Entry}
    (he : g.entry p.id p.n = some e) (hd : d ∈ e.sentSet) (hkept : ¬ e.Kept) :
    (∃ src, .processAck p.id p.n src ∈ ops ∧ A.parseBytes src = some d) ∨
      10 ≤ outs.countP fun x => x.Copies p.id p.n d := by
  rcases not_not.mp (mt Entry.kept_iff.mpr hkept) with hsame | hten
  · exact Or.inl (hexplained.acked he d ((hsame d).mp hd))
  · apply Or.inr
    -- every copy that was paid for went to the one address
    have honly : outs.countP (fun x => CopiesAmong p.id p.n e.sentSet x) ≤
        outs.countP fun x => x.Copies p.id p.n d := by
      apply List.countP_mono_left
      intro x _ hx
      obtain ⟨hid, hn, hdest⟩ := of_decide_eq_true hx
      obtain ⟨p', hp', hid', hn'⟩ := hexplained.sent he x.dest hdest
      exact decide_eq_true ⟨hid, hn, hone _ _ _ _ hp' hmem hid' hn'⟩
    calc 10 ≤ e.attempts := hten
      _ ≤ outs.countP fun x => CopiesAmong p.id p.n e.sentSet x := hpaid p.id p.n e he
      _ ≤ outs.countP fun x => x.Copies p.id p.n d := honly

/-- What accounts for a packet other than its record does for ever. -/
theorem Accounted.mono {ops ops' : List Op} {g' : GDUdp} {outs out : List (Datagram c)}
    {d : SocketAddr} {p : Packet}
    (h : (∃ src, .processAck p.id p.n src ∈ ops ∧ A.parseBytes src = some d) ∨
      10 ≤ outs.countP fun x => x.Copies p.id p.n d) :
    Accounted A (ops ++ ops') g' (outs ++ out) d p := by
  apply Or.inr
  apply h.imp
  · rintro ⟨src, hsrc, hparse⟩
    exact ⟨src, List.mem_append_left _ hsrc, hparse⟩
  · intro hten
    rw [List.countP_append]
    exact Nat.le_add_right_of_le hten

/-- **Step.** -/
theorem Accounted.step {ops : List Op} {g g' : GDUdp} {outs out : List (Datagram c)} {op : Op}
    {d : SocketAddr} {p : Packet} (h : Accounted A ops g outs d p)
    (hmem : .sendReliable d p ∈ ops) (hexplained : Explained A ops g) (hpaid : Paid g outs)
    (hone : OneAddress ops) (hstep : (machine c A).step g op = some (g', out)) :
    Accounted A (ops ++ [op]) g' (outs ++ out) d p := by
  rcases h with ⟨e, he, hd⟩ | h
  · cases op with
    | sendReliable peer packet =>
      have hg' : (sendReliable c g peer packet).1 = g' := congrArg Prod.fst (Option.some.inj hstep)
      apply Or.inl
      rw [← hg', entry_sendReliable]
      split
      · next hsame =>
        refine ⟨_, rfl, ?_⟩
        rw [← hsame.1, ← hsame.2, he, afterSend_sentSet]
        exact HashSet.mem_insert.mpr (Or.inr hd)
      · exact ⟨e, he, hd⟩
    | processAck id n src =>
      obtain ⟨hack, -⟩ := processAck_of_step c hstep
      obtain ⟨d', -, hentry⟩ := entry_processAck hack
      apply Or.inl
      rw [hentry]
      split
      · next hsame =>
        rw [← hsame.1, ← hsame.2, he]
        exact ⟨e.acked d', rfl, hd⟩
      · exact ⟨e, he, hd⟩
    | maintain =>
      by_cases hkept : e.Kept
      · have hg' : (maintain c g).1 = g' := congrArg Prod.fst (maintain_of_step c hstep)
        apply Or.inl
        rw [← hg', entry_maintain c hexplained.wellFormed, he, Option.filter_some,
          if_pos (decide_eq_true hkept)]
        exact ⟨_, rfl, hd⟩
      · exact .mono (accounted_of_not_kept hexplained hpaid hone hmem he hd hkept)
  · exact .mono h

/-- **Run.** Every packet sent to one address is accounted for. -/
theorem accounted_of_run (hc : c.Total) {addr : SocketAddr} {ops : List Op} (hone : OneAddress ops)
    {g : GDUdp} {outs : List (Datagram c)}
    (hrun : (machine c A).run (new addr) ops = some (g, outs)) {d : SocketAddr} {p : Packet}
    (hmem : .sendReliable d p ∈ ops) : Accounted A ops g outs d p := by
  refine (machine c A).run_history_reached (P := fun g ops outs => OneAddress ops →
    ∀ d p, .sendReliable d p ∈ ops → Accounted A ops g outs d p) ?_ ?_ hrun hone d p hmem
  · intro g ops outs op g' out hbefore hprev hstep hone d p hmem
    have hone' : OneAddress ops := fun d p d' p' h h' =>
      hone d p d' p' (List.mem_append_left _ h) (List.mem_append_left _ h')
    rcases List.mem_append.mp hmem with hold | hnew
    · exact (hprev hone' d p hold).step hold (explained_of_run hbefore) (paid_of_run hc hbefore)
        hone' hstep
    · -- just sent, so the record is there
      cases List.mem_singleton.mp hnew
      have hg' : (sendReliable c g d p).1 = g' := congrArg Prod.fst (Option.some.inj hstep)
      apply Or.inl
      rw [← hg', entry_sendReliable, if_pos ⟨rfl, rfl⟩]
      refine ⟨_, rfl, ?_⟩
      rw [afterSend_sentSet]
      exact HashSet.mem_insert.mpr (Or.inl rfl)
  · intro _ d p hmem
    cases hmem

end GDUdp

end Udp2p
