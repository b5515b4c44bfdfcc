import Udp2p.GdUdp.Outbox

/-!
# What a maintenance pass does

In a well-formed outbox (`WellFormed`: every record is filed under the id and number of its packet,
and no id is left without records) the resendings of a pass can be counted packet by packet.

* `entry_maintain` — a pass drops the records that are not `Kept` and adds to the attempts of each
  other record the number of addresses that have not acknowledged.
* `countP_maintain`, `mem_maintain` — it transmits a packet once to each of these addresses, and
  nothing else.
-/

namespace Udp2p

namespace GDUdp

variable (c : ByteRep Packet) {A : AddrText}

/-! ## Well-formed outboxes -/

/-- Records are filed under their packets, and no inner map is empty. -/
structure WellFormed (g : GDUdp) : Prop where
  keyed : ∀ {id n e}, g.entry id n = some e → e.packet.id = id ∧ e.packet.n = n
  filled : ∀ {id} {map : HashMap Nat Entry}, g.outbox.lookup id = some map →
    ∃ n, (map.lookup n).isSome

theorem WellFormed.isEmpty_iff {g : GDUdp} (h : g.WellFormed) :
    g.outbox.isEmpty = true ↔ ∀ id n, g.entry id n = none := by
  rw [AList.isEmpty_iff]
  constructor
  · intro hempty id n
    simp [entry, hempty id]
  · intro hnone id
    cases hid : g.outbox.lookup id with
    | none => rfl
    | some map =>
      obtain ⟨n, hn⟩ := h.filled hid
      have hentry := hnone id n
      rw [entry, hid, Option.bind_some] at hentry
      simp [hentry] at hn

theorem wellFormed_new (addr : SocketAddr) : (new addr).WellFormed where
  keyed h := by simp [entry_new] at h
  filled h := by simp [new] at h

/-- Filing a map of records that has one at `n` under `id` keeps the inner maps non-empty. -/
theorem filled_insert {g : GDUdp} (h : g.WellFormed) {id : InnerKey} {map : HashMap Nat Entry}
    {n : Nat} (hn : (map.lookup n).isSome) {id' : InnerKey} {map' : HashMap Nat Entry}
    (hlook : (g.outbox.insert id map).lookup id' = some map') : ∃ n, (map'.lookup n).isSome := by
  rw [AList.lookup_insert_ite] at hlook
  split at hlook
  · cases hlook
    exact ⟨n, hn⟩
  · exact h.filled hlook

theorem WellFormed.sendReliable {g : GDUdp} (h : g.WellFormed) (peer : SocketAddr)
    (packet : Packet) : (sendReliable c g peer packet).1.WellFormed where
  keyed {id n e} he := by
    rw [entry_sendReliable] at he
    split at he
    · next heq =>
      obtain ⟨rfl, rfl⟩ := heq
      cases hold : g.entry packet.id packet.n with
      | none =>
        rw [hold] at he
        cases he
        exact ⟨rfl, rfl⟩
      | some e' =>
        rw [hold] at he
        cases he
        exact h.keyed (e := e') hold
    · exact h.keyed he
  filled hlook := by
    obtain ⟨map, heq, hmap⟩ := sendReliable_outbox c g peer packet
    rw [heq] at hlook
    exact filled_insert h (n := packet.n) (by simp [hmap]) hlook

theorem WellFormed.processAck {g g' : GDUdp} (h : g.WellFormed) {id : InnerKey} {n : Nat}
    {src : AddressBytes} (hack : GDUdp.processAck A g id n src = some g') : g'.WellFormed where
  keyed he' := by
    obtain ⟨e, acks, he, rfl⟩ := entry_before_processAck hack he'
    exact h.keyed (e := e) he
  filled hlook := by
    obtain ⟨d, -, ⟨rfl, -⟩ | ⟨e, map, -, rfl, hmap⟩⟩ := processAck_cases hack
    · exact h.filled hlook
    · exact filled_insert h (n := n) (by simp [hmap]) hlook

theorem WellFormed.expire {g : GDUdp} (h : g.WellFormed) : g.expire.WellFormed where
  keyed he := by
    rw [entry_expire] at he
    exact h.keyed (Option.filter_eq_some_iff.mp he).1
  filled {id map} hlook := by
    simp only [GDUdp.expire, AList.lookup_retain, Option.bind_eq_some_iff] at hlook
    obtain ⟨old, -, hif⟩ := hlook
    split at hif
    · cases hif
    · next hne =>
      cases hif
      rw [AList.isEmpty_iff, not_forall] at hne
      exact hne.imp fun n hn => Option.isSome_iff_ne_none.mpr hn

theorem WellFormed.sendAll {g : GDUdp} (h : g.WellFormed)
    (sendings : List (SocketAddr × Packet)) : (sendAll c g sendings).1.WellFormed := by
  rw [GDUdp.sendAll]
  generalize ([] : List (Datagram c)) = out
  induction sendings generalizing g out with
  | nil => exact h
  | cons x xs ih => exact ih (h.sendReliable c x.1 x.2) _

theorem WellFormed.maintain {g : GDUdp} (h : g.WellFormed) : (maintain c g).1.WellFormed := by
  rw [maintain_eq]
  exact h.expire.sendAll c _

theorem WellFormed.step {g g' : GDUdp} {op : Op} {out : List (Datagram c)} (h : g.WellFormed)
    (hstep : (machine c A).step g op = some (g', out)) : g'.WellFormed := by
  cases op with
  | sendReliable peer packet =>
    cases hstep
    exact h.sendReliable c peer packet
  | processAck id n src =>
    obtain ⟨hack, rfl⟩ := processAck_of_step c hstep
    exact h.processAck hack
  | maintain =>
    have hmaintain := h.maintain c
    rw [maintain_of_step c hstep] at hmaintain
    exact hmaintain

theorem wellFormed_of_run {addr : SocketAddr} {ops : List Op} {g : GDUdp}
    {outs : List (Datagram c)} (hrun : (machine c A).run (new addr) ops = some (g, outs)) :
    g.WellFormed :=
  (machine c A).run_induct (fun _ _ _ _ h hstep => h.step c hstep) (wellFormed_new addr) hrun

/-! ## Counting the resendings -/

/-- The resendings of packet `n` of message `id` come from its record. -/
theorem countP_resendings {g : GDUdp} (h : g.WellFormed) (id : InnerKey) (n : Nat)
    (q : SocketAddr → Bool) :
    (resendings g.outbox).countP (fun x => Sends id n x && q x.1) =
      ((g.entry id n).map fun e =>
        if e.attempts < 10 then e.resend.toList.countP q else 0).getD 0 := by
  have hzero : ∀ m ∈ g.outbox.entries, ∀ e ∈ m.2.entries, (m.1 ≠ id ∨ e.1 ≠ n) →
      List.countP (fun x => Sends id n x && q x.1)
        (if e.2.attempts < 10 then e.2.resend.toList.map fun peer => (peer, e.2.packet)
          else []) = 0 := by
    -- a record yields sendings of the packet it is filed under only
    intro m hm e he hne
    have hentry : g.entry m.1 e.1 = some e.2 := by
      rw [entry, AList.lookup_eq_some_iff.mpr hm]
      exact AList.lookup_eq_some_iff.mpr he
    obtain ⟨hid, hn⟩ := h.keyed hentry
    rw [List.countP_eq_zero]
    intro x hx
    split at hx
    · obtain ⟨peer, -, rfl⟩ := List.mem_map.mp hx
      simp only [Sends, hid, hn]
      rcases hne with hne | hne <;> simp [hne]
    · cases hx
  rw [resendings, AList.countP_flatMap_entries (k := id)]
  · -- the map of the id, and in it the record of the number
    rw [entry]
    cases hid : g.outbox.lookup id with
    | none => rfl
    | some map =>
      have hmem := AList.lookup_eq_some_iff.mp hid
      simp only [Option.map_some, Option.getD_some, Option.bind_some]
      rw [AList.countP_flatMap_entries (k := n)]
      · cases hn : map.lookup n with
        | none => rfl
        | some e =>
          obtain ⟨rfl, rfl⟩ := h.keyed (e := e) (by rw [entry, hid, Option.bind_some, hn])
          by_cases hlt : e.attempts < 10
          · simp [hlt, List.countP_map, Function.comp_def, Sends]
          · simp [hlt]
      · intro e he hne
        exact hzero _ hmem e he (Or.inr hne)
  · -- the maps of other ids
    intro m hm hne
    rw [List.countP_flatMap, List.sum_eq_zero]
    intro k hk
    obtain ⟨e, he, rfl⟩ := List.mem_map.mp hk
    exact hzero m hm e he (Or.inl hne)

/-- A pass resends only to addresses a record was sent to before. -/
theorem sentSet_of_mem_resendings {g : GDUdp} (h : g.WellFormed) {x : SocketAddr × Packet}
    (hx : x ∈ resendings g.outbox) :
    ∃ e, g.entry x.2.id x.2.n = some e ∧ e.packet = x.2 ∧ x.1 ∈ e.resend := by
  obtain ⟨m, hm, hx⟩ := List.mem_flatMap.mp hx
  obtain ⟨e, he, hx⟩ := List.mem_flatMap.mp hx
  have hentry : g.entry m.1 e.1 = some e.2 := by
    rw [entry, AList.lookup_eq_some_iff.mpr hm]
    exact AList.lookup_eq_some_iff.mpr he
  split at hx
  · obtain ⟨peer, hpeer, rfl⟩ := List.mem_map.mp hx
    obtain ⟨hid, hn⟩ := h.keyed hentry
    rw [← hid, ← hn] at hentry
    exact ⟨e.2, hentry, rfl, hpeer⟩
  · cases hx

/-! ## The pass -/

/-- **A pass, record by record.** -/
theorem entry_maintain {g : GDUdp} (h : g.WellFormed) (id : InnerKey) (n : Nat) :
    (maintain c g).1.entry id n = ((g.entry id n).filter fun e => decide e.Kept).map
      fun e => e.resent e.resend.toList.length := by
  rw [maintain_eq, sendAll, entry_sendAll, entry_expire]
  · cases hentry : (g.entry id n).filter fun e => decide e.Kept with
    | none => rfl
    | some e =>
      have hkept : e.Kept := by simpa using (Option.filter_eq_some_iff.mp hentry).2
      have hcount := countP_resendings h.expire id n fun _ => true
      rw [entry_expire, hentry, Option.map_some, if_pos hkept.2] at hcount
      simp only [Bool.and_true, List.countP_true, Option.getD_some] at hcount
      rw [Option.map_some, Option.map_some, hcount]
  · -- all sendings go to addresses that were sent to before
    intro x hx hsends
    obtain ⟨rfl, rfl⟩ := hsends
    obtain ⟨e, he, -, hmem⟩ := sentSet_of_mem_resendings h.expire hx
    exact ⟨e, he, (Entry.mem_resend.mp hmem).1⟩

/-- What a pass leaves are kept records, with their attempts raised. -/
theorem entry_before_maintain {g : GDUdp} (h : g.WellFormed) {id : InnerKey} {n : Nat} {e' : Entry}
    (he' : (maintain c g).1.entry id n = some e') :
    ∃ e, g.entry id n = some e ∧ e.Kept ∧ e' = e.resent e.resend.toList.length := by
  rw [entry_maintain c h] at he'
  obtain ⟨e, hfilter, rfl⟩ := Option.map_eq_some_iff.mp he'
  obtain ⟨he, hkept⟩ := Option.filter_eq_some_iff.mp hfilter
  exact ⟨e, he, of_decide_eq_true hkept, rfl⟩

/-- A pass transmits packets of kept records only, to the addresses to be resent to. -/
theorem mem_maintain {g : GDUdp} (h : g.WellFormed) {x : Datagram c} (hx : x ∈ (maintain c g).2) :
    ∃ e, g.entry x.packet.id x.packet.n = some e ∧ e.Kept ∧ e.packet = x.packet ∧
      x.dest ∈ e.resend := by
  rw [maintain_eq, transmissions_sendAll, List.mem_flatMap] at hx
  obtain ⟨⟨peer, packet⟩, hmem, hx⟩ := hx
  obtain ⟨hpacket, hdest⟩ := mem_transmit c hx
  obtain ⟨e, he, heq, hresend⟩ := sentSet_of_mem_resendings h.expire hmem
  rw [entry_expire, Option.filter_eq_some_iff] at he
  rw [hpacket, hdest]
  exact ⟨e, he.1, by simpa using he.2, heq, hresend⟩

section Total

variable {c} (hc : c.Total)
include hc

/-- The datagrams of a pass are the resendings of what it keeps, in order. -/
theorem map_maintain (g : GDUdp) :
    (maintain c g).2.map (fun x => (x.dest, x.packet)) = resendings (expire g).outbox := by
  rw [maintain_eq, transmissions_sendAll, List.map_flatMap]
  generalize resendings _ = sendings
  induction sendings with
  | nil => rfl
  | cons x xs ih =>
    obtain ⟨bytes, hbytes⟩ := hc.exists_bytes x.2
    rw [List.flatMap_cons, ih, transmit_eq c hbytes]
    rfl

/-- **What a pass transmits** of a packet to an address: one copy iff the record is kept and the
address is to be resent to. -/
theorem countP_maintain {g : GDUdp} (h : g.WellFormed) (id : InnerKey) (n : Nat)
    (d : SocketAddr) :
    (maintain c g).2.countP (fun x => x.Copies id n d) =
      if ∃ e, g.entry id n = some e ∧ e.Kept ∧ d ∈ e.resend then 1 else 0 := by
  have hmap : (maintain c g).2.countP (fun x => x.Copies id n d) =
      (resendings (expire g).outbox).countP fun x => Sends id n x && decide (x.1 = d) := by
    rw [← map_maintain hc, List.countP_map]
    apply List.countP_congr
    intro x _
    show decide (x.packet.id = id ∧ x.packet.n = n ∧ x.dest = d) = true ↔
      (decide (x.packet.id = id ∧ x.packet.n = n) && decide (x.dest = d)) = true
    simp only [Bool.and_eq_true, decide_eq_true_iff, and_assoc]
  rw [hmap, countP_resendings h.expire id n fun a => decide (a = d), entry_expire]
  cases hentry : g.entry id n with
  | none => simp
  | some e =>
    by_cases hkept : e.Kept
    · have hcount : e.resend.toList.countP (fun x => decide (x = d)) =
          if d ∈ e.resend.toList then 1 else 0 := by
        rw [← e.resend.nodup.count, List.count]
        rfl
      simp only [Option.filter, hkept, decide_true, if_true, Option.map_some, Option.getD_some,
        hkept.2, hcount, HashSet.mem_def, Option.some.injEq, true_and, exists_eq_left']
    · simp [Option.filter, hkept]

end Total

end GDUdp

end Udp2p
