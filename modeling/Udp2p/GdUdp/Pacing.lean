import Udp2p.GdUdp.Retransmission
import Udp2p.Lib.Throttle

/-!
# How fast, and for how long, is a packet sent again?

The transport calls `check_time_elapsed` all the time, and the outbox is maintained when 300
milliseconds have passed since the timer was set. So what the passes count in attempts, the clock
counts in time.

* `timed_eq` — an outbox with its timer is a throttled outbox.
* `retransmissions_paced` — a packet is sent again at most once in 300 milliseconds.
* `not_given_up_early` — a packet for one address is not given up for nine times as long.
-/

namespace Udp2p

namespace GDUdp

/-- `MAINTENANCE`, 300 milliseconds in nanoseconds. -/
def maintenance : Nat := 300000000

variable (c : ByteRep Packet) (A : AddrText)

/-- `now` is the first reading, `after` the one the timer is set to. A timer that is set to a later
time makes `duration_since` zero. -/
def checkTimeElapsed (g : GDUdp) (timer now after : Nat) : (GDUdp × Nat) × List (Datagram c) :=
  let timeElapsed := now - timer
  if maintenance ≤ timeElapsed then
    let (g, out) := maintain c g
    ((g, after), out)
  else ((g, timer), [])

/-- What the transport calls besides `check_time_elapsed`. -/
inductive Call where
  | sendReliable (peer : SocketAddr) (packet : Packet)
  | processAck (id : InnerKey) (packetNumber : Nat) (src : AddressBytes)
  deriving DecidableEq

def Call.op : Call → Op
  | .sendReliable peer packet => .sendReliable peer packet
  | .processAck id packetNumber src => .processAck id packetNumber src

/-- A `GDUdp` and its timer. -/
def timed : Machine (GDUdp × Nat) (Call ⊕ Look) (Datagram c) where
  step s
    | .inl call => ((machine c A).step s.1 call.op).map fun r => ((r.1, s.2), r.2)
    | .inr look => some (checkTimeElapsed c s.1 s.2 look.now look.after)

theorem Call.op_ne_maintain (call : Call) : call.op ≠ .maintain := by
  cases call with
  | sendReliable peer packet => exact Op.noConfusion
  | processAck id packetNumber src => exact Op.noConfusion

theorem timed_eq : timed c A = (machine c A).throttle Call.op .maintain maintenance := by
  unfold timed Machine.throttle
  congr
  funext s i
  cases i with
  | inl call => rfl
  | inr look =>
    unfold checkTimeElapsed
    by_cases hdue : maintenance ≤ look.now - s.2
    · simp only [if_pos hdue]
      rfl
    · simp only [if_neg hdue]

/-- The operations on the outbox, in a run with the timer. -/
def timedOps (timer : Nat) (events : List (Call ⊕ Look)) : List Op :=
  Machine.throttled Call.op .maintain maintenance timer events

variable {c A}

theorem run_of_timed {g g' : GDUdp} {timer timer' : Nat} {events : List (Call ⊕ Look)}
    {outs : List (Datagram c)}
    (hrun : (timed c A).run (g, timer) events = some ((g', timer'), outs)) :
    (machine c A).run g (timedOps timer events) = some (g', outs) := by
  rw [timed_eq] at hrun
  exact (machine c A).run_of_throttle _ _ _ hrun

/-! ## Counting copies -/

/-- Is this a sending of packet `n` of message `id` to `d`? -/
def SendsTo (id : InnerKey) (n : Nat) (d : SocketAddr) : Op → Bool
  | .sendReliable peer packet => packet.id = id ∧ packet.n = n ∧ peer = d
  | _ => false

/-- A step transmits a packet to an address only if it is a sending of it or a pass, and then
once. -/
theorem copies_step (hc : c.Total) {g g' : GDUdp} (h : g.WellFormed) {op : Op}
    {out : List (Datagram c)} (hstep : (machine c A).step g op = some (g', out)) (id : InnerKey)
    (n : Nat) (d : SocketAddr) : out.countP (fun x => x.Copies id n d) ≤
      [op].countP (SendsTo id n d) + [op].count .maintain := by
  cases op with
  | sendReliable peer packet =>
    have hout : transmit c peer packet = out := congrArg Prod.snd (Option.some.inj hstep)
    obtain ⟨bytes, hbytes⟩ := hc.exists_bytes packet
    rw [transmit_eq c hbytes] at hout
    rw [← hout, List.countP_singleton, List.countP_singleton]
    apply Nat.le_add_right_of_le
    by_cases hcopy : packet.id = id ∧ packet.n = n ∧ peer = d
    · simp [SendsTo, Datagram.Copies, hcopy]
    · simp [SendsTo, Datagram.Copies, hcopy]
  | processAck id' n' src =>
    obtain ⟨-, rfl⟩ := processAck_of_step c hstep
    exact Nat.zero_le _
  | maintain =>
    have hcount := countP_maintain hc h id n d
    rw [maintain_of_step c hstep] at hcount
    rw [hcount]
    show _ ≤ 0 + 1
    split
    · exact le_rfl
    · exact Nat.zero_le _

theorem copies_run (hc : c.Total) {addr : SocketAddr} {ops : List Op} {g : GDUdp}
    {outs : List (Datagram c)} (hrun : (machine c A).run (new addr) ops = some (g, outs))
    (id : InnerKey) (n : Nat) (d : SocketAddr) : outs.countP (fun x => x.Copies id n d) ≤
      ops.countP (SendsTo id n d) + ops.count .maintain := by
  refine ((machine c A).run_history (A := fun _ => True) (P := fun g ops outs => g.WellFormed ∧
    outs.countP (fun x => x.Copies id n d) ≤ ops.countP (SendsTo id n d) + ops.count .maintain)
    ?_ ⟨wellFormed_new addr, le_rfl⟩ (fun _ _ => trivial) hrun).2
  intro g ops outs op g' out hprev _ hstep
  obtain ⟨hwf, hle⟩ := hprev
  have hone := copies_step hc hwf hstep id n d
  refine ⟨hwf.step c hstep, ?_⟩
  rw [List.countP_append, List.countP_append, List.count_append]
  omega

/-- **Retransmissions are paced**: between two readings of the clock, however often the timer is
checked, a packet is transmitted to an address at most as often as the application sends it there,
and once more for every 300 milliseconds. -/
theorem retransmissions_paced (hc : c.Total) {addr : SocketAddr} {start stop : Nat}
    {events : List (Call ⊕ Look)} (hclock : Clocked stop start events) {g : GDUdp} {timer : Nat}
    {outs : List (Datagram c)}
    (hrun : (timed c A).run (new addr, start) events = some ((g, timer), outs)) (id : InnerKey)
    (n : Nat) (d : SocketAddr) : outs.countP (fun x => x.Copies id n d) ≤
      events.countP (Sum.elim (fun call => SendsTo id n d call.op) fun _ => false) +
        (stop - start) / maintenance := by
  have hcopies := copies_run hc (run_of_timed hrun) id n d
  have hsendings : (timedOps start events).countP (SendsTo id n d) =
      events.countP (Sum.elim (fun call => SendsTo id n d call.op) fun _ => false) :=
    Machine.countP_throttled rfl start events
  have hpasses : (timedOps start events).count .maintain ≤ (stop - start) / maintenance := by
    apply (Nat.le_div_iff_mul_le (by decide)).mpr
    exact (Machine.count_throttled_le Call.op_ne_maintain hclock).2 rfl
  rw [hsendings] at hcopies
  exact hcopies.trans (Nat.add_le_add_left hpasses _)

/-! ## Patience -/

/-- The packet was sent `k` times, to `d` only, which has not acknowledged. -/
def Awaits (g : GDUdp) (id : InnerKey) (n : Nat) (d : SocketAddr) (k : Nat) : Prop :=
  ∃ e, g.entry id n = some e ∧ (∀ a ∈ e.sentSet, a = d) ∧ d ∈ e.resend ∧ e.attempts = k

/-- Neither a sending of the packet nor an ack of `d` for it. -/
def Op.Leaves (A : AddrText) (id : InnerKey) (n : Nat) (d : SocketAddr) : Op → Prop
  | .sendReliable _ packet => ¬ (packet.id = id ∧ packet.n = n)
  | .processAck id' n' src => id' = id → n' = n → A.parseBytes src ≠ some d
  | .maintain => True

/-- **Step.** A pass costs an attempt. -/
theorem Awaits.step {g g' : GDUdp} (hwf : g.WellFormed) {id : InnerKey} {n : Nat} {d : SocketAddr}
    {k : Nat} (h : Awaits g id n d k) {op : Op} (hop : op.Leaves A id n d)
    (hleft : op = .maintain → k < 10) {out : List (Datagram c)}
    (hstep : (machine c A).step g op = some (g', out)) :
    Awaits g' id n d (k + [op].count .maintain) := by
  obtain ⟨e, he, hsole, hd, rfl⟩ := h
  cases op with
  | sendReliable peer packet =>
    have hg' : (GDUdp.sendReliable c g peer packet).1 = g' :=
      congrArg Prod.fst (Option.some.inj hstep)
    refine ⟨e, ?_, hsole, hd, rfl⟩
    have hother : ¬ (id = packet.id ∧ n = packet.n) := fun hsame => hop ⟨hsame.1.symm, hsame.2.symm⟩
    rw [← hg', entry_sendReliable, if_neg hother]
    exact he
  | processAck id' n' src =>
    obtain ⟨hack, rfl⟩ := processAck_of_step c hstep
    obtain ⟨d', hparse, hentry⟩ := entry_processAck hack
    by_cases hsame : id = id' ∧ n = n'
    · obtain ⟨rfl, rfl⟩ := hsame
      have hne : d ≠ d' := by
        intro heq
        exact hop rfl rfl (heq ▸ hparse)
      obtain ⟨hsent, hwaiting⟩ := Entry.mem_resend.mp hd
      refine ⟨e.acked d', by simp [hentry, he], hsole, Entry.mem_resend.mpr ⟨hsent, ?_⟩, rfl⟩
      intro hacked
      rcases HashSet.mem_insert.mp hacked with heq | hold
      · exact hne heq
      · exact hwaiting hold
    · exact ⟨e, by simp [hentry, hsame, he], hsole, hd, rfl⟩
  | maintain =>
    -- the sets differ by `d`, and nobody else is left to resend to
    have hkept : e.Kept := by
      refine ⟨fun hsame => ?_, hleft rfl⟩
      exact (Entry.mem_resend.mp hd).2 ((hsame d).mp (Entry.mem_resend.mp hd).1)
    have hone : e.resend.toList.length = 1 := by
      have hall : ∀ a ∈ e.resend.toList, a = d := fun a ha => hsole a (Entry.mem_resend.mp ha).1
      have hnodup := e.resend.nodup
      rw [List.eq_replicate_of_mem hall, List.nodup_replicate] at hnodup
      exact Nat.le_antisymm hnodup (List.length_pos_of_mem hd)
    have hentry := entry_maintain c hwf id n
    rw [maintain_of_step c hstep, he] at hentry
    refine ⟨e.resent 1, ?_, hsole, hd, rfl⟩
    simpa [Option.filter, hkept, hone] using hentry

/-- **Run.** -/
theorem Awaits.run {g g' : GDUdp} (hwf : g.WellFormed) {id : InnerKey} {n : Nat} {d : SocketAddr}
    {k : Nat} (h : Awaits g id n d k) {ops : List Op} (hops : ∀ op ∈ ops, op.Leaves A id n d)
    (hleft : k + ops.count .maintain ≤ 10) {outs : List (Datagram c)}
    (hrun : (machine c A).run g ops = some (g', outs)) :
    Awaits g' id n d (k + ops.count .maintain) := by
  induction ops generalizing g k outs with
  | nil =>
    cases hrun
    exact h
  | cons op ops ih =>
    obtain ⟨s, out, outs', hstep, hrest, -⟩ := (machine c A).run_cons_eq_some.mp hrun
    have hcount : (op :: ops).count .maintain = [op].count .maintain + ops.count .maintain := by
      show ([op] ++ ops).count .maintain = _
      exact List.count_append
    rw [hcount] at hleft ⊢
    have hnext := h.step hwf (hops op List.mem_cons_self) ?_ hstep
    · rw [← Nat.add_assoc] at hleft ⊢
      exact ih (hwf.step c hstep) hnext (fun o ho => hops o (List.mem_cons_of_mem op ho)) hleft
        hrest
    · intro heq
      subst heq
      rw [List.count_singleton_self] at hleft
      omega

/-- **No packet is given up early**: one that is sent for the first time, and to one address only,
stays in the outbox for nine times 300 milliseconds, unless that address acknowledges it. -/
theorem not_given_up_early {addr : SocketAddr} {start₀ start stop : Nat}
    {before more : List (Call ⊕ Look)} {g g' : GDUdp} {timer timer' : Nat}
    {outs₀ outs : List (Datagram c)}
    (hbefore : (timed c A).run (new addr, start₀) before = some ((g, timer), outs₀))
    {d : SocketAddr} {p : Packet} (hnew : g.entry p.id p.n = none)
    (hmore : (timed c A).run (g, timer) (.inl (.sendReliable d p) :: more) =
      some ((g', timer'), outs))
    (hclock : Clocked stop start more)
    (honce : ∀ d' p', .inl (.sendReliable d' p') ∈ more → ¬ (p'.id = p.id ∧ p'.n = p.n))
    (hnoack : ∀ src, .inl (.processAck p.id p.n src) ∈ more → A.parseBytes src ≠ some d)
    (hsoon : stop < start + 9 * maintenance) :
    ∃ e, g'.entry p.id p.n = some e ∧ d ∈ e.sentSet ∧ d ∉ e.ackSet := by
  have hwf := wellFormed_of_run c (run_of_timed hbefore)
  have hrun := run_of_timed hmore
  obtain ⟨s, out, outs', hsend, hrest, -⟩ := (machine c A).run_cons_eq_some.mp hrun
  have hs : (GDUdp.sendReliable c g d p).1 = s := congrArg Prod.fst (Option.some.inj hsend)
  have hfirst : Awaits s p.id p.n d 1 := by
    refine ⟨.first d p, ?_, fun a ha => ?_, Entry.mem_resend.mpr ⟨?_, ?_⟩, rfl⟩
    · rw [← hs, entry_sendReliable, if_pos ⟨rfl, rfl⟩, hnew]
      rfl
    · rcases HashSet.mem_insert.mp ha with heq | hmem
      · exact heq
      · exact absurd hmem (HashSet.notMem_empty a)
    · exact HashSet.mem_insert.mpr (Or.inl rfl)
    · exact HashSet.notMem_empty d
  have hops : ∀ op ∈ timedOps timer more, op.Leaves A p.id p.n d := by
    intro op hop
    rcases Machine.mem_throttled hop with rfl | ⟨call, hcall, rfl⟩
    · trivial
    · cases call with
      | sendReliable d' p' => exact honce d' p' hcall
      | processAck id n src =>
        intro hid hn
        subst hid hn
        exact hnoack src hcall
  -- ten passes would take nine periods
  have hfew : 1 + (timedOps timer more).count .maintain ≤ 10 := by
    have htime : ((timedOps timer more).count .maintain - 1) * maintenance ≤ stop - start :=
      (Machine.count_throttled_le Call.op_ne_maintain hclock).1
    by_contra hmany
    have hnine : 9 * maintenance ≤ ((timedOps timer more).count .maintain - 1) * maintenance :=
      Nat.mul_le_mul_right maintenance (by omega)
    have hle := hnine.trans htime
    have hforward := hclock.le
    omega
  obtain ⟨e, he, -, hd, -⟩ := hfirst.run (hwf.step c hsend) hops hfew hrest
  exact ⟨e, he, Entry.mem_resend.mp hd⟩

/-! ## Two seconds -/

/-- The timer is checked seven times in two seconds, and has expired every time but one. -/
def checks : List (Call ⊕ Look) :=
  [.inr ⟨300000000, 300000000⟩, .inr ⟨600000000, 600000001⟩, .inr ⟨900000000, 900000000⟩,
    .inr ⟨1200000000, 1200000000⟩, .inr ⟨1500000000, 1500000000⟩, .inr ⟨1800000000, 1800000000⟩,
    .inr ⟨2000000000, 2000000000⟩]

/-- Five of the seven checks find that it is time: six copies are sent, and seven would be
allowed. -/
theorem sent_and_checked_paced : ∃ g timer outs,
    (timed someCodec .standard).run (new destination, 0)
      (.inl (.sendReliable destination somePacket) :: checks) = some ((g, timer), outs) ∧
    outs.countP (fun x => x.Copies somePacket.id somePacket.n destination) = 6 ∧
    ∀ id n d, outs.countP (fun x => x.Copies id n d) ≤
      (.inl (.sendReliable destination somePacket) :: checks).countP
        (Sum.elim (fun call => SendsTo id n d call.op) fun _ => false) +
        (2000000000 - 0) / maintenance := by
  have hruns : ((timed someCodec .standard).run (new destination, 0)
      (.inl (.sendReliable destination somePacket) :: checks)).map
      (fun r => r.2.countP fun x => x.Copies somePacket.id somePacket.n destination) =
      some 6 := by decide +kernel
  obtain ⟨⟨⟨g, timer⟩, outs⟩, hrun, hcount⟩ := Option.map_eq_some_iff.mp hruns
  exact ⟨g, timer, outs, hrun, hcount, retransmissions_paced someCodec_total (by decide) hrun⟩

theorem sent_and_checked_kept : ∃ g timer outs,
    (timed someCodec .standard).run (new destination, 0)
      (.inl (.sendReliable destination somePacket) :: checks) = some ((g, timer), outs) ∧
    ∃ e, g.entry somePacket.id somePacket.n = some e ∧ destination ∈ e.sentSet ∧
      destination ∉ e.ackSet := by
  have hsome : ((timed someCodec .standard).run (new destination, 0)
      (.inl (.sendReliable destination somePacket) :: checks)).isSome := rfl
  obtain ⟨⟨⟨g, timer⟩, outs⟩, hrun⟩ := Option.isSome_iff_exists.mp hsome
  refine ⟨g, timer, outs, hrun, ?_⟩
  have hbefore : (timed someCodec .standard).run (new destination, 0) [] =
      some ((new destination, 0), []) := rfl
  have hlooks : ∀ call, .inl call ∉ checks := by
    intro call hmem
    simp [checks] at hmem
  have hclock : Clocked 2000000000 0 checks := by decide
  exact not_given_up_early hbefore (entry_new _ _ _) hrun hclock
    (fun _ _ hmem => absurd hmem (hlooks _)) (fun _ hmem => absurd hmem (hlooks _)) (by decide)

end GDUdp

end Udp2p
