import Udp2p.Transport.Reassembly

/-!
# Delivery: what a run of arrivals hands over

The step of `Reassembly` is lifted to whole runs of the `reassembler`. Arrivals are copies of the
packets of the messages under study, in any order, with losses and repetitions; packets under
other ids may be anything.

* `reassembly_inverts_packetize` — a message is handed over iff all its packets have arrived, and
  nothing but the messages sent is.
* `handed_over_at_most_once_iff` — the entry is kept after completion, so every late copy hands the
  message over again: it is handed over at most once iff no copy is late.
* `reassembly_survives_iff` — over arbitrary packets, exactly which runs do not panic.
-/

namespace Udp2p

/-- A message as its sender split it. -/
structure Original where
  id : InnerKey
  ret : ReturnReceipt
  message : Message
  bytes : MessageData
  packets : Packets

/-- The bytes are the message's, and `packetize` made the packets from them. -/
def Original.Split (W : Wire) (o : Original) : Prop :=
  W.message.asBytes o.message = some o.bytes ∧
    packetize W.hex o.bytes o.id o.ret = some o.packets

/-- The call passes on this message, by one of its own packets. -/
def Original.Gets (o : Original) (d : HandOver) : Prop :=
  d.packet.id = o.id ∧ d.message = o.message

instance (o : Original) : DecidablePred o.Gets :=
  fun d => inferInstanceAs (Decidable (d.packet.id = o.id ∧ d.message = o.message))

theorem Original.Split.fragments {W : Wire} {o : Original} (h : o.Split W) :
    Fragments W.hex o.id o.bytes o.packets := by
  obtain ⟨packets, hsplit, hfrag⟩ := packetize_fragments W.hex o.bytes o.id o.ret
  rw [h.2, Option.some.injEq] at hsplit
  exact hsplit ▸ hfrag

/-! ## A wire for one message -/

/-- A wire that serialises one gossip message. -/
def gossipWire (data : MessageData) : Wire where
  hex := Hex.standard
  packet := .table []
  message := .table [(⟨.gossip, data⟩, gossipJson data)]
  ack := .table []
  kad := .table []

/-- That message, split under a packet id. -/
def gossipOriginal (data : MessageData) (id : InnerKey) : Original where
  id := id
  ret := returnReceipt
  message := ⟨.gossip, data⟩
  bytes := gossipJson data
  packets := (packetize Hex.standard (gossipJson data) id returnReceipt).getD []

theorem gossipWire_lawful (data : MessageData) : (gossipWire data).message.Lawful :=
  ByteRep.table_lawful (by simp)

theorem gossipOriginal_split (data : MessageData) (id : InnerKey) :
    (gossipOriginal data id).Split (gossipWire data) := by
  refine ⟨by simp [gossipWire, gossipOriginal, ByteRep.table], ?_⟩
  simp [gossipWire, gossipOriginal, packetize_eq]

def someSender : SocketAddr := .v4 ⟨10, 0, 0, 7⟩ 9292

namespace MessageHandler

/-! ## Runs, seen from one original -/

/-- No copy of the packets arrives after all of them have arrived. -/
def NoLateCopy (packets : Packets) (hist : List Arrival) : Prop :=
  ∀ pre a post, hist = pre ++ a :: post → Complete packets pre → a.1 ∉ packets

theorem noLateCopy_nil (packets : Packets) : NoLateCopy packets [] := by
  intro pre a post h
  simp at h

theorem noLateCopy_concat {packets : Packets} {hist : List Arrival} {a : Arrival} :
    NoLateCopy packets (hist ++ [a]) ↔
      NoLateCopy packets hist ∧ (Complete packets hist → a.1 ∉ packets) := by
  constructor
  · intro h
    refine ⟨fun pre b post heq => h pre b (post ++ [a]) (by simp [heq]), h hist a [] rfl⟩
  · intro h pre b post heq
    obtain ⟨hhist, hlast⟩ := h
    -- the late copy is the new arrival or an earlier one
    rcases List.eq_nil_or_concat post with rfl | ⟨post', c, rfl⟩
    · obtain ⟨rfl, rfl⟩ := List.append_inj' heq rfl |>.imp_right List.singleton_inj.mp
      exact hlast
    · rw [List.concat_eq_append, ← List.cons_append, ← List.append_assoc] at heq
      exact hhist pre b post' (List.append_inj' heq rfl).1

section Run

variable {W : Wire} {o : Original}

/-- What the arrivals under an original's id may be: copies of its packets. -/
def Genuine (o : Original) (a : Arrival) : Prop := a.1.id = o.id → a.1 ∈ o.packets

/-- One step of the reassembler, seen from one original: it is handed over exactly by a packet of
its own that leaves none missing. -/
theorem reassembler_step_own (hW : W.message.Lawful) (hsplit : o.Split W) {hist : List Arrival}
    {h h' : MessageHandler} (htracks : Tracks o.packets o.id hist h) {a : Arrival}
    {out : List HandOver} (ha : Genuine o a)
    (hstep : (reassembler W).step h a = some (h', out)) :
    Tracks o.packets o.id (hist ++ [a]) h' ∧
      out.countP (fun d => o.Gets d) =
        if a.1 ∈ o.packets ∧ Complete o.packets (hist ++ [a]) then 1 else 0 := by
  have hfrag := hsplit.fragments
  obtain ⟨message?, hins, rfl⟩ := reassembler_step_eq_some.mp hstep
  by_cases hid : a.1.id = o.id
  · have hmem := ha hid
    obtain ⟨h₁, m, hins', htracks', hyes, hno⟩ := insertPacket_own hfrag htracks hmem
    rw [hins, Option.some.injEq, Prod.mk.injEq] at hins'
    obtain ⟨rfl, rfl⟩ := hins'
    refine ⟨htracks', ?_⟩
    by_cases hcomplete : Complete o.packets (hist ++ [a])
    · have hback := hW o.message o.bytes hsplit.1
      rw [if_pos ⟨hmem, hcomplete⟩, hyes hcomplete, hback]
      simp [Original.Gets, hid]
    · rw [if_neg fun hboth => hcomplete hboth.2, hno hcomplete]
      simp
  · have hmem : a.1 ∉ o.packets := fun hmem => hid (hfrag.id_eq _ hmem)
    refine ⟨htracks.other hfrag hid hins, ?_⟩
    rw [if_neg fun hboth => hmem hboth.1, List.countP_eq_zero]
    intro d hd
    obtain ⟨m, -, rfl⟩ := List.mem_map.mp hd
    simp [Original.Gets, hid]

/-- **Run.** Along any run the table tracks the arrivals; the original has been handed over iff it
is complete, and at most once iff no copy has come late. -/
theorem reassembler_run_own (hW : W.message.Lawful) (hsplit : o.Split W)
    {h₀ h : MessageHandler} (hnew : h₀.pending.lookup o.id = none) {arrivals : List Arrival}
    {outs : List HandOver} (hgen : ∀ a ∈ arrivals, Genuine o a)
    (hrun : (reassembler W).run h₀ arrivals = some (h, outs)) :
    Tracks o.packets o.id arrivals h ∧
      (outs.countP (fun d => o.Gets d) = 0 ↔ ¬ Complete o.packets arrivals) ∧
      (outs.countP (fun d => o.Gets d) ≤ 1 ↔ NoLateCopy o.packets arrivals) := by
  refine (reassembler W).run_history (P := fun h hist outs => Tracks o.packets o.id hist h ∧
    (outs.countP (fun d => o.Gets d) = 0 ↔ ¬ Complete o.packets hist) ∧
    (outs.countP (fun d => o.Gets d) ≤ 1 ↔ NoLateCopy o.packets hist)) ?_ ?_ hgen hrun
  · intro h hist outs a h' out hinv ha hstep
    obtain ⟨htracks, hzero, hone⟩ := hinv
    obtain ⟨htracks', hcount⟩ := reassembler_step_own hW hsplit htracks ha hstep
    refine ⟨htracks', ?_⟩
    rw [List.countP_append, hcount, noLateCopy_concat]
    by_cases hmem : a.1 ∈ o.packets
    · by_cases hnow : Complete o.packets (hist ++ [a])
      · -- handed over: it is the first time iff the message was not complete before
        rw [if_pos ⟨hmem, hnow⟩]
        refine ⟨by simp [hnow], ?_⟩
        rw [show ∀ n, n + 1 ≤ 1 ↔ n = 0 by omega, hzero]
        constructor
        · intro hnot
          have hnone := hzero.mpr hnot
          refine ⟨hone.mp (by omega), ?_⟩
          intro hc
          exact absurd hc hnot
        · intro h hc
          exact h.2 hc hmem
      · -- still incomplete: nothing is handed over, and no copy can be late yet
        have hbefore : ¬ Complete o.packets hist := fun hc => hnow (hc.concat a)
        rw [if_neg fun hboth => hnow hboth.2, Nat.add_zero, hzero, hone]
        refine ⟨iff_of_true hbefore hnow, ?_⟩
        constructor
        · intro h
          exact ⟨h, fun hc => absurd hc hbefore⟩
        · intro h
          exact h.1
    · -- a packet of another id changes neither side
      rw [if_neg fun hboth => hmem hboth.1, Nat.add_zero, hzero, hone,
        complete_concat_of_notMem hmem]
      refine ⟨Iff.rfl, ?_⟩
      constructor
      · intro h
        exact ⟨h, fun _ => hmem⟩
      · intro h
        exact h.1
  · refine ⟨tracks_nil hnew, ?_, ?_⟩
    · simp [not_complete_nil hsplit.fragments.nonempty]
    · simp [noLateCopy_nil]

theorem exists_gets_iff {outs : List HandOver} :
    (∃ d ∈ outs, o.Gets d) ↔ outs.countP (fun d => o.Gets d) ≠ 0 := by
  rw [Ne, List.countP_eq_zero]
  simp

end Run

/-! ## Fragmentation and reassembly are inverse -/

section Family

variable {W : Wire} {family : List Original}

/-- With distinct ids, a copy of some original's packet is genuine for every original. -/
theorem genuine_of_mem_family (hsplit : ∀ o ∈ family, o.Split W)
    (hids : (family.map Original.id).Nodup) {a : Arrival}
    (ha : ∃ o ∈ family, a.1 ∈ o.packets) : ∀ o ∈ family, Genuine o a := by
  obtain ⟨o, ho, hmem⟩ := ha
  intro o' ho' hid
  have hsame : o.id = o'.id := (hsplit o ho).fragments.id_eq _ hmem ▸ hid
  exact List.inj_on_of_nodup_map hids ho ho' hsame ▸ hmem

/-- A run over copies of the originals' packets returns. -/
theorem run_family_returns (hW : W.message.Lawful) (hsplit : ∀ o ∈ family, o.Split W)
    (hids : (family.map Original.id).Nodup) {arrivals : List Arrival}
    (harr : ∀ a ∈ arrivals, ∃ o ∈ family, a.1 ∈ o.packets) :
    ∃ h outs, (reassembler W).run ⟨∅⟩ arrivals = some (h, outs) ∧
      ∀ o ∈ family, Tracks o.packets o.id arrivals h := by
  refine (reassembler W).run_total (P := fun h hist => ∀ o ∈ family,
    Tracks o.packets o.id hist h) ?_ (fun o _ => tracks_nil (AList.lookup_empty _)) harr
  intro h hist a htracks ha
  have hgen := genuine_of_mem_family hsplit hids ha
  obtain ⟨o, ho, hmem⟩ := ha
  obtain ⟨h', m, hins, -⟩ := insertPacket_own (hsplit o ho).fragments (htracks o ho) hmem
  have hstep := reassembler_step_eq_some.mpr ⟨m, hins, rfl⟩
  refine ⟨h', _, hstep, fun o' ho' => ?_⟩
  exact (reassembler_step_own hW (hsplit o' ho') (htracks o' ho') (hgen o' ho') hstep).1

/-- Everything a run over copies of the originals' packets hands over is an original, passed on by
one of its own packets. -/
theorem handOvers_are_originals (hW : W.message.Lawful) (hsplit : ∀ o ∈ family, o.Split W)
    (hids : (family.map Original.id).Nodup) {arrivals : List Arrival}
    (harr : ∀ a ∈ arrivals, ∃ o ∈ family, a.1 ∈ o.packets) {h : MessageHandler}
    {outs : List HandOver} (hrun : (reassembler W).run ⟨∅⟩ arrivals = some (h, outs)) :
    ∀ d ∈ outs, ∃ o ∈ family, o.Gets d := by
  refine ((reassembler W).run_history (P := fun h hist outs =>
    (∀ o ∈ family, Tracks o.packets o.id hist h) ∧ ∀ d ∈ outs, ∃ o ∈ family, o.Gets d)
    ?_ ⟨fun o _ => tracks_nil (AList.lookup_empty _), by simp⟩ harr hrun).2
  intro h hist outs a h' out hinv ha hstep
  obtain ⟨htracks, hprev⟩ := hinv
  have hgen := genuine_of_mem_family hsplit hids ha
  refine ⟨fun o' ho' =>
    (reassembler_step_own hW (hsplit o' ho') (htracks o' ho') (hgen o' ho') hstep).1, ?_⟩
  intro d hd
  rcases List.mem_append.mp hd with hold | hnew
  · exact hprev d hold
  · obtain ⟨o, ho, hmem⟩ := ha
    have hfrag := (hsplit o ho).fragments
    obtain ⟨h₁, m, hins, -, hyes, hno⟩ := insertPacket_own hfrag (htracks o ho) hmem
    obtain ⟨m', hins', rfl⟩ := reassembler_step_eq_some.mp hstep
    rw [hins', Option.some.injEq, Prod.mk.injEq] at hins
    obtain ⟨rfl, rfl⟩ := hins
    obtain ⟨message, hm, rfl⟩ := List.mem_map.mp hnew
    rw [Option.mem_toList] at hm
    refine ⟨o, ho, hfrag.id_eq _ hmem, ?_⟩
    by_cases hcomplete : Complete o.packets (hist ++ [a])
    · rw [hyes hcomplete, hW o.message o.bytes (hsplit o ho).1] at hm
      exact (Option.some.inj hm).symm
    · rw [hno hcomplete] at hm
      cases hm

/-- **Fragmentation and reassembly are inverse**, for every family of messages with distinct packet
ids and every arrival sequence made of copies of their packets. -/
theorem reassembly_inverts_packetize (hW : W.message.Lawful) (hsplit : ∀ o ∈ family, o.Split W)
    (hids : (family.map Original.id).Nodup) (arrivals : List Arrival)
    (harr : ∀ a ∈ arrivals, ∃ o ∈ family, a.1 ∈ o.packets) :
    (∀ bytes id ret, (packetize W.hex bytes id ret).isSome) ∧
    ∀ pre, pre <+: arrivals → ∃ h outs, (reassembler W).run ⟨∅⟩ pre = some (h, outs) ∧
      (∀ d ∈ outs, ∃ o ∈ family, o.Gets d) ∧
      ∀ o ∈ family, (∃ d ∈ outs, o.Gets d) ↔ ∀ p ∈ o.packets, p ∈ pre.map Prod.fst := by
  refine ⟨fun bytes id ret => by simp [packetize_eq], fun pre hpre => ?_⟩
  have harr' : ∀ a ∈ pre, ∃ o ∈ family, a.1 ∈ o.packets := fun a ha => harr a (hpre.subset ha)
  obtain ⟨h, outs, hrun, -⟩ := run_family_returns hW hsplit hids harr'
  refine ⟨h, outs, hrun, handOvers_are_originals hW hsplit hids harr' hrun, fun o ho => ?_⟩
  have hgen : ∀ a ∈ pre, Genuine o a :=
    fun a ha => genuine_of_mem_family hsplit hids (harr' a ha) o ho
  obtain ⟨-, hzero, -⟩ := reassembler_run_own hW (hsplit o ho) (AList.lookup_empty _) hgen hrun
  rw [exists_gets_iff, Ne, hzero, not_not]
  rfl

end Family

/-- Six hundred zero bytes, sent twice: more than 1024 bytes of JSON, two packets each time. -/
def twoSendings : List Original :=
  [gossipOriginal (List.replicate 600 0) (List.Vector.replicate 32 1),
   gossipOriginal (List.replicate 600 0) (List.Vector.replicate 32 2)]

/-- The second sending backwards, then the first, then the second once more. -/
def crossedArrivals : List Arrival :=
  ((twoSendings.flatMap Original.packets).reverse ++ twoSendings.flatMap Original.packets).map
    fun p => (p, someSender)

theorem twoSendings_reassembled :
    (∀ bytes id ret,
      (packetize (gossipWire (List.replicate 600 0)).hex bytes id ret).isSome) ∧
    ∀ pre, pre <+: crossedArrivals → ∃ h outs,
      (reassembler (gossipWire (List.replicate 600 0))).run ⟨∅⟩ pre = some (h, outs) ∧
      (∀ d ∈ outs, ∃ o ∈ twoSendings, o.Gets d) ∧
      ∀ o ∈ twoSendings, (∃ d ∈ outs, o.Gets d) ↔ ∀ p ∈ o.packets, p ∈ pre.map Prod.fst := by
  apply reassembly_inverts_packetize (gossipWire_lawful _)
  · intro o ho
    rcases List.mem_pair.mp ho with rfl | rfl <;> exact gossipOriginal_split _ _
  · decide
  · intro a ha
    obtain ⟨p, hp, rfl⟩ := List.mem_map.mp ha
    have hp' : p ∈ twoSendings.flatMap Original.packets := by
      simpa only [List.mem_append, List.mem_reverse, or_self] using hp
    exact List.mem_flatMap.mp hp'

/-! ## At most once -/

/-- **At-most-once hand-over**, exactly: up to the first panic, which only packets of other ids can
cause, a message is handed over at most once iff none of its packets arrives after all of them
have. -/
theorem handed_over_at_most_once_iff {W : Wire} (hW : W.message.Lawful) {o : Original}
    (hsplit : o.Split W) {h₀ : MessageHandler} (hnew : h₀.pending.lookup o.id = none)
    (arrivals : List Arrival) (hgen : ∀ a ∈ arrivals, a.1.id = o.id → a.1 ∈ o.packets) :
    ((reassembler W).emitted h₀ arrivals).countP (fun d => o.Gets d) ≤ 1 ↔
      NoLateCopy o.packets ((reassembler W).handled h₀ arrivals) := by
  obtain ⟨h, hrun⟩ := (reassembler W).run_handled h₀ arrivals
  have hgen' : ∀ a ∈ (reassembler W).handled h₀ arrivals, Genuine o a :=
    fun a ha => hgen a ((reassembler W).handled_subset h₀ arrivals ha)
  exact (reassembler_run_own hW hsplit hnew hgen' hrun).2.2

/-- Two copies of everything that was sent: the second ones are late. -/
def sentTwice (o : Original) : List Arrival :=
  (o.packets ++ o.packets).map fun p => (p, someSender)

theorem not_noLateCopy_sentTwice {W : Wire} {o : Original} (hsplit : o.Split W) :
    ¬ NoLateCopy o.packets (sentTwice o) := by
  obtain ⟨p, hp⟩ := List.exists_mem_of_ne_nil _ hsplit.fragments.nonempty
  obtain ⟨l, r, hlr⟩ := List.append_of_mem hp
  -- its second copy comes when all first copies are there
  intro h
  refine h ((o.packets ++ l).map fun p => (p, someSender)) (p, someSender)
    (r.map fun p => (p, someSender)) ?_ ?_ hp
  · rw [sentTwice]
    nth_rewrite 2 [hlr]
    simp
  · intro q hq
    simp [Arrived, hq]

theorem mem_packets_of_mem_sentTwice {o : Original} {a : Arrival} (ha : a ∈ sentTwice o) :
    a.1 ∈ o.packets := by
  obtain ⟨p, hp, rfl⟩ := List.mem_map.mp ha
  simpa using hp

/-- A short gossip message, in one packet. -/
def shortOriginal : Original := gossipOriginal [1, 2, 3] (List.Vector.replicate 32 1)

theorem shortOriginal_at_most_once_iff :
    ((reassembler (gossipWire [1, 2, 3])).emitted ⟨∅⟩ (sentTwice shortOriginal)).countP
        (fun d => shortOriginal.Gets d) ≤ 1 ↔
      NoLateCopy shortOriginal.packets
        ((reassembler (gossipWire [1, 2, 3])).handled ⟨∅⟩ (sentTwice shortOriginal)) :=
  handed_over_at_most_once_iff (gossipWire_lawful _) (gossipOriginal_split _ _)
    (AList.lookup_empty _) _ fun _ ha _ => mem_packets_of_mem_sentTwice ha

/-- The short message received twice is handed over twice. -/
theorem late_copy_handed_over_again :
    ¬ ∀ (W : Wire) (o : Original) (h₀ : MessageHandler) (arrivals : List Arrival),
      W.message.Lawful → o.Split W → h₀.pending.lookup o.id = none →
      (∀ a ∈ arrivals, a.1.id = o.id → a.1 ∈ o.packets) →
      ((reassembler W).emitted h₀ arrivals).countP (fun d => o.Gets d) ≤ 1 := by
  intro hall
  have hW := gossipWire_lawful [1, 2, 3]
  have hsplit : shortOriginal.Split (gossipWire [1, 2, 3]) := gossipOriginal_split _ _
  have hgen : ∀ a ∈ sentTwice shortOriginal, Genuine shortOriginal a :=
    fun a ha _ => mem_packets_of_mem_sentTwice ha
  have hcount := hall _ shortOriginal ⟨∅⟩ _ hW hsplit (AList.lookup_empty _) hgen
  have hfamily : ∀ a ∈ sentTwice shortOriginal, ∃ o ∈ [shortOriginal], a.1 ∈ o.packets :=
    fun a ha => ⟨_, List.mem_singleton_self _, mem_packets_of_mem_sentTwice ha⟩
  obtain ⟨h, outs, hrun, -⟩ := run_family_returns hW
    (fun o ho => List.mem_singleton.mp ho ▸ hsplit) (by simp) hfamily
  rw [((reassembler _).handled_emitted_of_run hrun).2] at hcount
  obtain ⟨-, -, hone⟩ := reassembler_run_own hW hsplit (AList.lookup_empty _) hgen hrun
  exact not_noLateCopy_sentTwice hsplit (hone.mp hcount)

/-! ## Arbitrary packets -/

/-- **Hostile packets.** A run over arbitrary packets returns iff every packet can be reassembled in
the state it arrives in; and a packet changes no entry but that of its own id. -/
theorem reassembly_survives_iff (W : Wire) (arrivals : List Arrival) :
    (((reassembler W).run ⟨∅⟩ arrivals).isSome ↔
      (reassembler W).Always (fun h a => h.Reassembles W a.1) ⟨∅⟩ arrivals) ∧
    ∀ h h' packet message?, insertPacket W h packet = some (h', message?) →
      ∀ id, id ≠ packet.id → h'.pending.lookup id = h.pending.lookup id := by
  refine ⟨?_, fun h h' packet message? hins id hid => insertPacket_frame W hins hid⟩
  refine (reassembler W).run_isSome_iff_always (P := fun _ => True) (A := fun _ => True)
    (fun _ _ _ _ _ _ => trivial) (fun h a _ _ => ?_) trivial fun _ _ => trivial
  rw [← insertPacket_isSome_iff, reassembler, Option.isSome_map]

/-- Two packets of one id that claim to be two, numbered 5 and 7. -/
def strayNumbers : List Arrival :=
  [(⟨List.Vector.replicate 32 1, 5, 2, "", 0⟩, someSender),
   (⟨List.Vector.replicate 32 1, 7, 2, "", 0⟩, someSender)]

/-- They make the table count complete and the assembly index a missing number. -/
theorem stray_numbers_panic :
    ¬ ∀ (W : Wire) (arrivals : List Arrival), ((reassembler W).run ⟨∅⟩ arrivals).isSome := by
  intro hall
  have hnone : ((reassembler (gossipWire [])).run ⟨∅⟩ strayNumbers).isSome = false := by decide
  exact Bool.false_ne_true (hnone ▸ hall (gossipWire []) strayNumbers)

end MessageHandler

end Udp2p
