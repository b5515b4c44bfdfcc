import Udp2p.Transport.Handler

/-!
# Reassembly: what a run of `insert_packet` hands over

The packets of many messages arrive interleaved, out of order, repeated or not at all.
`Tracks packets id hist h` ties the handler's table to the history of arrivals: a message of one
packet never has an entry, and a longer one has an entry from its first arrival on, holding exactly
the packets that have arrived. `insertPacket_own` is the step: a message is handed over exactly
when the arriving packet leaves none of its packets missing.

* `Holds.len_eq_iff` — counting the entries of the map tells whether the message is complete.
* `Holds.assemblePackets` — a complete map assembles to the message's bytes.
* `Tracks.other` — packets of other ids leave the entry alone.
-/

namespace Udp2p

/-- A packet and the address it came from. -/
abbrev Arrival := Packet × SocketAddr

/-- One call of `handle_message`: the packet whose arrival caused it, and its arguments. -/
structure HandOver where
  packet : Packet
  message : Message
  src : SocketAddr
  deriving DecidableEq

namespace MessageHandler

/-- The handler as a machine: arrivals in, calls of `handle_message` out. -/
def reassembler (W : Wire) : Machine MessageHandler Arrival HandOver where
  step h a := (h.insertPacket W a.1).map fun r =>
    (r.1, r.2.toList.map fun message => ⟨a.1, message, a.2⟩)

theorem reassembler_step_eq_some {W : Wire} {h h' : MessageHandler} {a : Arrival}
    {out : List HandOver} :
    (reassembler W).step h a = some (h', out) ↔ ∃ message?,
      h.insertPacket W a.1 = some (h', message?) ∧
        out = message?.toList.map fun message => ⟨a.1, message, a.2⟩ := by
  simp only [reassembler, Option.map_eq_some_iff, Prod.exists, Prod.mk.injEq]
  constructor
  · intro h
    obtain ⟨_, message?, hins, rfl, rfl⟩ := h
    exact ⟨message?, hins, rfl⟩
  · intro h
    obtain ⟨message?, hins, rfl⟩ := h
    exact ⟨h', message?, hins, rfl, rfl⟩

/-! ## The table and the history of arrivals -/

/-- The packet has arrived. -/
def Arrived (hist : List Arrival) (p : Packet) : Prop := p ∈ hist.map Prod.fst

/-- All the packets have arrived. -/
def Complete (packets : Packets) (hist : List Arrival) : Prop := ∀ p ∈ packets, Arrived hist p

instance (packets : Packets) (hist : List Arrival) : Decidable (Complete packets hist) :=
  inferInstanceAs (Decidable (∀ p ∈ packets, p ∈ hist.map Prod.fst))

/-- The map holds exactly those of the packets that have arrived, each under its number. -/
def Holds (packets : Packets) (hist : List Arrival) (map : HashMap Nat Packet) : Prop :=
  ∀ n q, map.lookup n = some q ↔ q ∈ packets ∧ Arrived hist q ∧ q.n = n

/-- The table's entry for `id` reflects which of the packets have arrived. -/
structure Tracks (packets : Packets) (id : InnerKey) (hist : List Arrival) (h : MessageHandler) :
    Prop where
  absent : packets.length = 1 ∨ (∀ p ∈ packets, ¬ Arrived hist p) → h.pending.lookup id = none
  present : packets.length ≠ 1 → ∀ p ∈ packets, Arrived hist p →
    ∃ map, h.pending.lookup id = some map ∧ Holds packets hist map

@[simp] theorem arrived_nil (p : Packet) : ¬ Arrived [] p := List.not_mem_nil

@[simp] theorem arrived_concat {hist : List Arrival} {a : Arrival} {p : Packet} :
    Arrived (hist ++ [a]) p ↔ Arrived hist p ∨ p = a.1 := by
  simp [Arrived]

theorem not_complete_nil {packets : Packets} (hne : packets ≠ []) : ¬ Complete packets [] := by
  obtain ⟨p, hp⟩ := List.exists_mem_of_ne_nil _ hne
  exact fun h => arrived_nil p (h p hp)

theorem Complete.concat {packets : Packets} {hist : List Arrival} (h : Complete packets hist)
    (a : Arrival) : Complete packets (hist ++ [a]) :=
  fun p hp => arrived_concat.mpr (Or.inl (h p hp))

theorem complete_concat_of_notMem {packets : Packets} {hist : List Arrival} {a : Arrival}
    (ha : a.1 ∉ packets) : Complete packets (hist ++ [a]) ↔ Complete packets hist := by
  constructor
  · intro h p hp
    rcases arrived_concat.mp (h p hp) with harr | rfl
    · exact harr
    · exact absurd hp ha
  · intro h
    exact h.concat a

theorem tracks_nil {packets : Packets} {id : InnerKey} {h : MessageHandler}
    (hnew : h.pending.lookup id = none) : Tracks packets id [] h :=
  ⟨fun _ => hnew, fun _ p _ harr => absurd harr (arrived_nil p)⟩

section Fragmented

variable {W : Wire} {id : InnerKey} {bytes : MessageData} {packets : Packets}
  {hist : List Arrival} {map : HashMap Nat Packet}

/-- Inserting a packet under its number, unless one is there, records its arrival. -/
theorem Holds.orInsert (hfrag : Fragments W.hex id bytes packets) (hmap : Holds packets hist map)
    {a : Arrival} (ha : a.1 ∈ packets) :
    Holds packets (hist ++ [a]) (map.orInsert a.1.n a.1) := by
  intro n q
  by_cases hn : n = a.1.n
  · -- whatever is filed under the number is the packet that bears it
    subst hn
    have hget : (map.lookup a.1.n).getD a.1 = a.1 := by
      cases hlook : map.lookup a.1.n with
      | none => rfl
      | some q' =>
        obtain ⟨hq', -, hnum⟩ := (hmap _ _).mp hlook
        exact hfrag.eq_of_n_eq hq' ha hnum
    rw [AList.lookup_orInsert_self, hget, Option.some.injEq, arrived_concat]
    constructor
    · intro heq
      subst heq
      exact ⟨ha, Or.inr rfl, rfl⟩
    · intro h
      obtain ⟨hq, -, hnum⟩ := h
      exact (hfrag.eq_of_n_eq hq ha hnum).symm
  · rw [AList.lookup_orInsert_ne _ _ hn, hmap, arrived_concat]
    apply and_congr_right
    intro _
    apply and_congr_left
    intro hnum
    have hne : q ≠ a.1 := fun heq => hn (heq ▸ hnum.symm)
    simp [hne]

/-- The count of entries tells whether the message is complete. -/
theorem Holds.len_eq_iff (hfrag : Fragments W.hex id bytes packets)
    (hmap : Holds packets hist map) : map.len = packets.length ↔ Complete packets hist := by
  have hsub : ∀ n q, map.lookup n = some q → n ∈ List.range' 1 packets.length := by
    intro n q hlook
    obtain ⟨hq, -, hn⟩ := (hmap n q).mp hlook
    exact hfrag.mem_numbers.mpr ⟨q, hq, hn⟩
  have hlen := AList.len_eq_length_iff List.nodup_range' hsub
  rw [List.length_range'] at hlen
  rw [hlen]
  constructor
  · intro h p hp
    obtain ⟨q, hlook⟩ := Option.isSome_iff_exists.mp (h p.n (hfrag.mem_numbers.mpr ⟨p, hp, rfl⟩))
    obtain ⟨hq, harr, hn⟩ := (hmap _ _).mp hlook
    exact hfrag.eq_of_n_eq hq hp hn ▸ harr
  · intro h n hn
    obtain ⟨p, hp, rfl⟩ := hfrag.mem_numbers.mp hn
    exact Option.isSome_iff_exists.mpr ⟨p, (hmap _ _).mpr ⟨hp, h p hp, rfl⟩⟩

theorem mapM_congr_of_mem {α β : Type} {f g : α → Option β} {l : List α}
    (h : ∀ a ∈ l, f a = g a) : l.mapM f = l.mapM g := by
  induction l with
  | nil => rfl
  | cons a l ih =>
    rw [List.mapM_cons, List.mapM_cons, h a List.mem_cons_self,
      ih fun b hb => h b (List.mem_cons_of_mem _ hb)]

/-- A complete map assembles to the message's bytes. -/
theorem Holds.assemblePackets (hfrag : Fragments W.hex id bytes packets)
    (hmap : Holds packets hist map) (hcomplete : Complete packets hist) {p : Packet}
    (hp : p ∈ packets) : assemblePackets W p map = some (W.message.fromBytes bytes) := by
  obtain ⟨chunks, hdecode, hflat⟩ := hfrag.decode
  have hlookup : ∀ q ∈ packets, ((fun n => (map.lookup n).bind fun r => W.hex.decode r.bytes) ∘
      Packet.n) q = W.hex.decode q.bytes := by
    intro q hq
    rw [Function.comp_apply, (hmap q.n q).mpr ⟨hq, hcomplete q hq, rfl⟩, Option.bind_some]
  rw [assemblePackets_eq, hfrag.totalN_eq p hp, ← hfrag.numbers, List.mapM_map,
    mapM_congr_of_mem hlookup, hdecode, Option.map_some, hflat]

/-- What inserting a packet of the message does: it returns, the table keeps tracking the arrivals,
and the message is handed over iff none of its packets is missing any more. -/
def InsertsOwn (W : Wire) (packets : Packets) (id : InnerKey) (bytes : MessageData)
    (hist : List Arrival) (h : MessageHandler) (a : Arrival) : Prop :=
  ∃ h' message?, h.insertPacket W a.1 = some (h', message?) ∧
    Tracks packets id (hist ++ [a]) h' ∧
    (Complete packets (hist ++ [a]) → message? = W.message.fromBytes bytes) ∧
    (¬ Complete packets (hist ++ [a]) → message? = none)

/-- The packet of a message of one packet is handed over on every arrival. -/
theorem insertPacket_single (hfrag : Fragments W.hex id bytes packets) {h : MessageHandler}
    (htracks : Tracks packets id hist h) {a : Arrival} (ha : a.1 ∈ packets)
    (hone : packets.length = 1) : InsertsOwn W packets id bytes hist h a := by
  have hid := hfrag.id_eq a.1 ha
  have htotal := hfrag.totalN_eq a.1 ha
  have hlook : h.pending.lookup a.1.id = none := hid ▸ htracks.absent (Or.inl hone)
  obtain ⟨p, rfl⟩ := List.length_eq_one_iff.mp hone
  obtain rfl := List.mem_singleton.mp ha
  have hdecode : W.hex.decode a.1.bytes = some bytes := by
    obtain ⟨chunks, hchunks, rfl⟩ := hfrag.decode
    rw [List.mapM_cons, List.mapM_nil] at hchunks
    cases hd : W.hex.decode a.1.bytes with
    | none => simp [hd] at hchunks
    | some c =>
      rw [hd] at hchunks
      cases hchunks
      simp
  refine ⟨h, W.message.fromBytes bytes, ?_, ?_, fun _ => rfl, fun hnot => ?_⟩
  · simp [insertPacket, hlook, htotal, hdecode]
  · exact ⟨fun _ => hid ▸ hlook, fun hne => absurd hone hne⟩
  · -- the packet that arrives is all there is
    apply absurd _ hnot
    intro q hq
    exact arrived_concat.mpr (Or.inr (List.mem_singleton.mp hq))

/-- The first packet of a longer message opens its entry. -/
theorem insertPacket_first (hfrag : Fragments W.hex id bytes packets) {h : MessageHandler}
    (htracks : Tracks packets id hist h) {a : Arrival} (ha : a.1 ∈ packets)
    (hone : packets.length ≠ 1) (hnone : ∀ p ∈ packets, ¬ Arrived hist p) :
    InsertsOwn W packets id bytes hist h a := by
  have hid := hfrag.id_eq a.1 ha
  have htotal := hfrag.totalN_eq a.1 ha
  have hlook : h.pending.lookup a.1.id = none := hid ▸ htracks.absent (Or.inr hnone)
  have hholds : Holds packets (hist ++ [a]) (AList.singleton a.1.n a.1) := by
    intro n q
    rw [AList.lookup_singleton, arrived_concat]
    constructor
    · intro hq
      split at hq
      · next hn => cases hq; exact ⟨ha, Or.inr rfl, hn.symm⟩
      · cases hq
    · intro h
      obtain ⟨hq, harr | rfl, rfl⟩ := h
      · exact absurd harr (hnone q hq)
      · exact if_pos rfl
  have hmissing : ¬ Complete packets (hist ++ [a]) := by
    -- with two packets or more, the one that has arrived is not all of them
    rw [← hholds.len_eq_iff hfrag]
    exact fun hlen => hone hlen.symm
  refine ⟨{ h with pending := h.pending.insert a.1.id (AList.singleton a.1.n a.1) }, none, ?_,
    ⟨?_, ?_⟩, fun hyes => absurd hyes hmissing, fun _ => rfl⟩
  · simp only [insertPacket, hlook, htotal, if_neg hone]
  · intro h
    rcases h with hlen | hnew
    · exact absurd hlen hone
    · exact absurd (arrived_concat.mpr (Or.inr rfl)) (hnew a.1 ha)
  · exact fun _ _ _ _ => ⟨_, hid ▸ AList.lookup_insert _, hholds⟩

/-- A further packet joins the entry, which is assembled if it is complete then. -/
theorem insertPacket_next (hfrag : Fragments W.hex id bytes packets) {h : MessageHandler}
    (htracks : Tracks packets id hist h) {a : Arrival} (ha : a.1 ∈ packets)
    (hone : packets.length ≠ 1) {p : Packet} (hp : p ∈ packets) (harr : Arrived hist p) :
    InsertsOwn W packets id bytes hist h a := by
  have hid := hfrag.id_eq a.1 ha
  have htotal := hfrag.totalN_eq a.1 ha
  obtain ⟨map, hlook, hmap⟩ := htracks.present hone p hp harr
  have hlook' : h.pending.lookup a.1.id = some map := hid ▸ hlook
  have hmap' := hmap.orInsert hfrag ha
  have htracks' : Tracks packets id (hist ++ [a])
      { h with pending := h.pending.insert a.1.id (map.orInsert a.1.n a.1) } := by
    constructor
    · intro h
      rcases h with hlen | hnone
      · exact absurd hlen hone
      · exact absurd (arrived_concat.mpr (Or.inl harr)) (hnone p hp)
    · exact fun _ _ _ _ => ⟨_, hid ▸ AList.lookup_insert _, hmap'⟩
  by_cases hcomplete : Complete packets (hist ++ [a])
  · refine ⟨_, W.message.fromBytes bytes, ?_, htracks', fun _ => rfl, absurd hcomplete⟩
    have hlen := (hmap'.len_eq_iff hfrag).mpr hcomplete
    have hasm := hmap'.assemblePackets hfrag hcomplete ha
    simp [insertPacket, hlook', htotal, hlen, hasm]
  · refine ⟨_, none, ?_, htracks', fun hyes => absurd hyes hcomplete, fun _ => rfl⟩
    have hlen := mt (hmap'.len_eq_iff hfrag).mp hcomplete
    simp [insertPacket, hlook', htotal, hlen]

/-- **Step.** Inserting any packet of a tracked message. -/
theorem insertPacket_own (hfrag : Fragments W.hex id bytes packets) {h : MessageHandler}
    (htracks : Tracks packets id hist h) {a : Arrival} (ha : a.1 ∈ packets) :
    InsertsOwn W packets id bytes hist h a := by
  by_cases hone : packets.length = 1
  · exact insertPacket_single hfrag htracks ha hone
  · by_cases hsome : ∃ p ∈ packets, Arrived hist p
    · obtain ⟨p, hp, harr⟩ := hsome
      exact insertPacket_next hfrag htracks ha hone hp harr
    · apply insertPacket_first hfrag htracks ha hone
      intro p hp harr
      exact hsome ⟨p, hp, harr⟩

/-- A packet under another id leaves the entry as it is. -/
theorem Tracks.other (hfrag : Fragments W.hex id bytes packets) {h h' : MessageHandler}
    (htracks : Tracks packets id hist h) {a : Arrival} (hid : a.1.id ≠ id)
    {message? : Option Message} (hins : h.insertPacket W a.1 = some (h', message?)) :
    Tracks packets id (hist ++ [a]) h' := by
  have hframe := insertPacket_frame W hins (Ne.symm hid)
  have harr : ∀ p ∈ packets, (Arrived (hist ++ [a]) p ↔ Arrived hist p) := by
    intro p hp
    have hne : p ≠ a.1 := fun heq => hid (heq ▸ hfrag.id_eq p hp)
    simp [hne]
  constructor
  · intro h₀
    rw [hframe]
    apply htracks.absent
    apply h₀.imp_right
    intro hnone p hp
    exact mt (harr p hp).mpr (hnone p hp)
  · intro hone p hp harrived
    obtain ⟨map, hlook, hmap⟩ := htracks.present hone p hp ((harr p hp).mp harrived)
    refine ⟨map, hframe ▸ hlook, ?_⟩
    intro n q
    rw [hmap]
    apply and_congr_right
    intro hq
    apply and_congr_left
    intro _
    exact (harr q hq).symm

end Fragmented

end MessageHandler

end Udp2p
