import Mathlib.Data.List.TakeWhile
import Udp2p.Transport.Delivery

/-!
# Are the packets of a finished message released?

`insert_packet` never takes an entry out of the table. What the table holds is therefore a function
of the arrivals (`stored`): of each id, every packet from the first on that is one of several, under
each number the one that came first. The packets of a message of two or more stay after it has been
passed on.

* `records_step`, `records_of_run` — the table after a run, over arbitrary packets.
* `only_unfinished_iff` — the table holds unfinished messages only iff no message of two or more
  packets has arrived completely.
-/

namespace Udp2p

namespace MessageHandler

/-- The arrivals under an id that are stored: those from the first packet on that is one of
several. -/
def stored (id : InnerKey) (hist : List Arrival) : Packets :=
  ((hist.map Prod.fst).filter fun p => decide (p.id = id)).dropWhile fun p => decide (p.totalN = 1)

/-- The table files the stored packets under their numbers, the first that comes with a number. -/
def Records (hist : List Arrival) (h : MessageHandler) : Prop :=
  ∀ id, (stored id hist = [] → h.pending.lookup id = none) ∧
    (stored id hist ≠ [] → ∃ map, h.pending.lookup id = some map ∧
      ∀ n, map.lookup n = (stored id hist).find? fun p => decide (p.n = n))

/-- All packets of a message are there: a packet, and packets under all numbers up to its total. -/
def Full (map : HashMap Nat Packet) : Prop :=
  ∃ n p, map.lookup n = some p ∧ ∀ m ∈ List.range' 1 p.totalN, (map.lookup m).isSome

/-- No entry has all its packets. -/
def OnlyUnfinished (h : MessageHandler) : Prop :=
  ∀ id map, h.pending.lookup id = some map → ¬ Full map

/-- Of each packet filed, some number up to its total is missing among the stored packets. -/
def Outstanding (hist : List Arrival) : Prop :=
  ∀ id p, ((stored id hist).find? fun q => decide (q.n = p.n)) = some p →
    ∃ m ∈ List.range' 1 p.totalN, ∀ q ∈ stored id hist, q.n ≠ m

theorem mem_arrivals_of_mem_stored {id : InnerKey} {hist : List Arrival} {p : Packet}
    (hp : p ∈ stored id hist) : p.id = id ∧ p ∈ hist.map Prod.fst := by
  have hfilter := (List.dropWhile_sublist _).subset hp
  obtain ⟨hmem, hid⟩ := List.mem_filter.mp hfilter
  exact ⟨of_decide_eq_true hid, hmem⟩

/-- One more arrival is stored unless it has another id, or is alone and finds nothing stored. -/
theorem stored_concat (id : InnerKey) (hist : List Arrival) (a : Arrival) :
    stored id (hist ++ [a]) =
      if a.1.id = id ∧ ¬ (stored id hist = [] ∧ a.1.totalN = 1) then stored id hist ++ [a.1]
      else stored id hist := by
  unfold stored
  rw [List.map_append, List.filter_append, List.map_singleton, List.filter_singleton]
  by_cases hid : a.1.id = id
  · rw [decide_eq_true hid, cond_true, List.dropWhile_append]
    generalize ((hist.map Prod.fst).filter fun p => decide (p.id = id)).dropWhile _ = l
    cases l with
    | nil => by_cases htotal : a.1.totalN = 1 <;> simp [hid, htotal]
    | cons p l => simp [hid]
  · simp [hid]

/-! ## The table after a run -/

/-- What an insertion makes of the entry of its own id. -/
theorem insertPacket_entry {W : Wire} {h h' : MessageHandler} {packet : Packet}
    {message? : Option Message} (hins : h.insertPacket W packet = some (h', message?)) :
    h'.pending.lookup packet.id =
      match h.pending.lookup packet.id with
      | some map => some (map.orInsert packet.n packet)
      | none => if packet.totalN = 1 then none else some (AList.singleton packet.n packet) := by
  unfold insertPacket at hins
  cases hlook : h.pending.lookup packet.id with
  | some map =>
    simp only [hlook] at hins
    split at hins
    · obtain ⟨m, -, hm⟩ := Option.bind_eq_some_iff.mp hins
      cases hm
      exact AList.lookup_insert _
    · cases hins
      exact AList.lookup_insert _
  | none =>
    simp only [hlook] at hins
    split at hins
    · next htotal =>
      obtain ⟨bytes, -, hb⟩ := Option.bind_eq_some_iff.mp hins
      cases hb
      rw [hlook, if_pos htotal]
    · next htotal =>
      cases hins
      rw [if_neg htotal]
      exact AList.lookup_insert _

theorem lookup_orInsert_find {map : HashMap Nat Packet} {l : Packets}
    (h : ∀ n, map.lookup n = l.find? fun p => decide (p.n = n)) (packet : Packet) (n : Nat) :
    (map.orInsert packet.n packet).lookup n =
      (l ++ [packet]).find? fun p => decide (p.n = n) := by
  rw [List.find?_append, ← h, List.find?_singleton]
  by_cases hn : n = packet.n
  · subst hn
    rw [AList.lookup_orInsert_self]
    cases map.lookup packet.n <;> simp
  · rw [AList.lookup_orInsert_ne _ _ hn]
    simp [Ne.symm hn]

/-- **Step.** -/
theorem records_step {W : Wire} {hist : List Arrival} {h h' : MessageHandler} {a : Arrival}
    {out : List HandOver} (hrec : Records hist h)
    (hstep : (reassembler W).step h a = some (h', out)) : Records (hist ++ [a]) h' := by
  obtain ⟨message?, hins, -⟩ := reassembler_step_eq_some.mp hstep
  intro id
  rw [stored_concat]
  by_cases hid : a.1.id = id
  · subst hid
    rw [insertPacket_entry hins]
    obtain ⟨hnone, hsome⟩ := hrec a.1.id
    by_cases hempty : stored a.1.id hist = []
    · -- nothing stored yet: a packet that is alone is not stored either
      rw [hnone hempty, hempty]
      by_cases htotal : a.1.totalN = 1
      · simp [htotal]
      · simp only [htotal, and_false, not_false_eq_true, and_self, if_true, if_false,
          List.nil_append, Option.some.injEq, exists_eq_left']
        refine ⟨fun h => absurd h (List.cons_ne_nil _ _), fun _ n => ?_⟩
        rw [AList.lookup_singleton, List.find?_singleton]
        by_cases hn : n = a.1.n
        · simp [hn]
        · simp [hn, Ne.symm hn]
    · obtain ⟨map, hmap, hfind⟩ := hsome hempty
      simp only [hmap, hempty, false_and, not_false_eq_true, and_self, if_true, Option.some.injEq,
        exists_eq_left']
      refine ⟨fun h => absurd h (by simp), fun _ n => ?_⟩
      exact lookup_orInsert_find hfind a.1 n
  · rw [insertPacket_frame W hins (Ne.symm hid), if_neg fun h => hid h.1]
    exact hrec id

/-- **Run.** -/
theorem records_of_run {W : Wire} {arrivals : List Arrival} {h : MessageHandler}
    {outs : List HandOver} (hrun : (reassembler W).run ⟨∅⟩ arrivals = some (h, outs)) :
    Records arrivals h := by
  refine (reassembler W).run_history (P := fun h hist _ => Records hist h) (A := fun _ => True)
    (fun _ _ _ _ _ _ hrec _ hstep => records_step hrec hstep) ?_ (fun _ _ => trivial) hrun
  intro id
  exact ⟨fun _ => AList.lookup_empty _, fun hne => absurd rfl hne⟩

/-- What an entry lacks is what has not arrived. -/
theorem Records.onlyUnfinished_iff {hist : List Arrival} {h : MessageHandler}
    (hrec : Records hist h) : h.OnlyUnfinished ↔ Outstanding hist := by
  have hmissing : ∀ {id m}, ((stored id hist).find? fun q => decide (q.n = m)).isSome = false ↔
      ∀ q ∈ stored id hist, q.n ≠ m := by
    intro id m
    rw [← Bool.not_eq_true, List.find?_isSome]
    simp
  constructor
  · intro honly id p hp
    have hne : stored id hist ≠ [] := by
      intro hempty
      rw [hempty] at hp
      cases hp
    obtain ⟨map, hmap, hfind⟩ := (hrec id).2 hne
    by_contra hnot
    apply honly id map hmap
    refine ⟨p.n, p, (hfind p.n).trans hp, fun m hm => ?_⟩
    rw [hfind]
    by_contra hnone
    exact hnot ⟨m, hm, hmissing.mp (Bool.eq_false_iff.mpr hnone)⟩
  · intro hout id map hmap hfull
    by_cases hempty : stored id hist = []
    · rw [(hrec id).1 hempty] at hmap
      cases hmap
    · obtain ⟨map', hmap', hfind⟩ := (hrec id).2 hempty
      rw [hmap, Option.some.injEq] at hmap'
      subst hmap'
      obtain ⟨n, p, hp, hall⟩ := hfull
      rw [hfind] at hp
      have hn : p.n = n := by simpa using List.find?_some hp
      obtain ⟨m, hm, hno⟩ := hout id p (hn ▸ hp)
      have hthere := hall m hm
      rw [hfind, hmissing.mpr hno] at hthere
      cases hthere

/-! ## Messages with ids of their own -/

section Family

variable {W : Wire} {family : List Original} {arrivals : List Arrival}

/-- Of a message of several packets, all arrivals are stored. -/
theorem mem_stored_of_arrived {o : Original} (hsplit : o.Split W)
    (hgen : ∀ a ∈ arrivals, Genuine o a) (hlen : o.packets.length ≠ 1) {p : Packet}
    (hp : p ∈ o.packets) (harr : p ∈ arrivals.map Prod.fst) : p ∈ stored o.id arrivals := by
  have hself : stored o.id arrivals =
      (arrivals.map Prod.fst).filter fun p => decide (p.id = o.id) := by
    rw [stored, List.dropWhile_eq_self_iff]
    intro hpos hone
    -- the first packet under the id is one of the message's, and the message has several
    have hmem := List.getElem_mem hpos
    obtain ⟨hfirst, hid⟩ := List.mem_filter.mp hmem
    obtain ⟨a, ha, heq⟩ := List.mem_map.mp hfirst
    rw [← heq, decide_eq_true_eq] at hid hone
    exact hlen ((hsplit.fragments.totalN_eq _ (hgen a ha hid)).symm.trans hone)
  rw [hself]
  exact List.mem_filter.mpr ⟨harr, decide_eq_true (hsplit.fragments.id_eq p hp)⟩

/-- Of a message of one packet, no arrival is. -/
theorem stored_eq_nil {o : Original} (hsplit : o.Split W) (hgen : ∀ a ∈ arrivals, Genuine o a)
    (hlen : o.packets.length = 1) : stored o.id arrivals = [] := by
  rw [stored, List.dropWhile_eq_nil_iff]
  intro p hp
  obtain ⟨hmem, hid⟩ := List.mem_filter.mp hp
  obtain ⟨a, ha, rfl⟩ := List.mem_map.mp hmem
  have hpacket := hgen a ha (of_decide_eq_true hid)
  exact decide_eq_true ((hsplit.fragments.totalN_eq _ hpacket).trans hlen)

/-- What is outstanding, message by message. -/
theorem outstanding_iff (hsplit : ∀ o ∈ family, o.Split W)
    (hids : (family.map Original.id).Nodup)
    (harr : ∀ a ∈ arrivals, ∃ o ∈ family, a.1 ∈ o.packets) :
    Outstanding arrivals ↔
      ∀ o ∈ family, o.packets.length ≠ 1 → ∃ p ∈ o.packets, p ∉ arrivals.map Prod.fst := by
  have hgen : ∀ o ∈ family, ∀ a ∈ arrivals, Genuine o a :=
    fun o ho a ha => genuine_of_mem_family hsplit hids (harr a ha) o ho
  -- whatever is stored under an original's id is one of its packets, and has arrived
  have hown : ∀ o ∈ family, ∀ q ∈ stored o.id arrivals,
      q ∈ o.packets ∧ q ∈ arrivals.map Prod.fst := by
    intro o ho q hq
    obtain ⟨hid, hmem⟩ := mem_arrivals_of_mem_stored hq
    obtain ⟨a, ha, rfl⟩ := List.mem_map.mp hmem
    exact ⟨hgen o ho a ha hid, hmem⟩
  constructor
  · intro hout o ho hlen
    by_contra hnot
    have hall : ∀ p ∈ o.packets, p ∈ stored o.id arrivals := by
      intro p hp
      by_contra hno
      exact hnot ⟨p, hp, mt (mem_stored_of_arrived (hsplit o ho) (hgen o ho) hlen hp) hno⟩
    have hfrag := (hsplit o ho).fragments
    obtain ⟨p, hp⟩ := List.exists_mem_of_ne_nil _ hfrag.nonempty
    have hfind : (stored o.id arrivals).find? (fun q => decide (q.n = p.n)) = some p := by
      cases hf : (stored o.id arrivals).find? fun q => decide (q.n = p.n) with
      | none =>
        have hne := List.find?_eq_none.mp hf p (hall p hp)
        exact absurd (decide_eq_true rfl) hne
      | some q =>
        have hn : q.n = p.n := by simpa using List.find?_some hf
        have hq := (hown o ho q (List.mem_of_find?_eq_some hf)).1
        rw [hfrag.eq_of_n_eq hq hp hn]
    obtain ⟨m, hm, hno⟩ := hout o.id p hfind
    rw [hfrag.totalN_eq p hp] at hm
    obtain ⟨q, hq, rfl⟩ := hfrag.mem_numbers.mp hm
    exact hno q (hall q hq) rfl
  · intro hmissing id p hp
    have hpstored := List.mem_of_find?_eq_some hp
    obtain ⟨hid, hmem⟩ := mem_arrivals_of_mem_stored hpstored
    obtain ⟨a, ha, rfl⟩ := List.mem_map.mp hmem
    obtain ⟨o, ho, hpacket⟩ := harr a ha
    have hfrag := (hsplit o ho).fragments
    obtain rfl : o.id = id := (hfrag.id_eq _ hpacket).symm.trans hid
    have hlen : o.packets.length ≠ 1 := by
      intro hone
      rw [stored_eq_nil (hsplit o ho) (hgen o ho) hone] at hpstored
      cases hpstored
    obtain ⟨q, hq, hno⟩ := hmissing o ho hlen
    refine ⟨q.n, ?_, fun r hr hn => ?_⟩
    · rw [hfrag.totalN_eq _ hpacket]
      exact hfrag.mem_numbers.mpr ⟨q, hq, rfl⟩
    · obtain ⟨hr', hrarr⟩ := hown o ho r hr
      exact hno (hfrag.eq_of_n_eq hr' hq hn ▸ hrarr)

end Family

/-- **Only unfinished messages are held**, exactly. After a run over any packets, no entry has all
its packets iff of each packet stored some number up to its total has not arrived; for messages with
ids of their own, iff no message of several packets has arrived completely. -/
theorem only_unfinished_iff {W : Wire} {arrivals : List Arrival} {h : MessageHandler}
    {outs : List HandOver} (hrun : (reassembler W).run ⟨∅⟩ arrivals = some (h, outs)) :
    (h.OnlyUnfinished ↔ Outstanding arrivals) ∧
    ∀ family : List Original, (∀ o ∈ family, o.Split W) → (family.map Original.id).Nodup →
      (∀ a ∈ arrivals, ∃ o ∈ family, a.1 ∈ o.packets) →
      (h.OnlyUnfinished ↔
        ∀ o ∈ family, o.packets.length ≠ 1 → ∃ p ∈ o.packets, p ∉ arrivals.map Prod.fst) := by
  have honly := (records_of_run hrun).onlyUnfinished_iff
  refine ⟨honly, fun family hsplit hids harr => ?_⟩
  rw [honly, outstanding_iff hsplit hids harr]

/-! ## A message of several packets -/

/-- Eleven hundred zero bytes: more than 2048 bytes of JSON, in three packets. -/
def longOriginal : Original := gossipOriginal (List.replicate 1100 0) (List.Vector.replicate 32 1)

def longWire : Wire := gossipWire (List.replicate 1100 0)

theorem longOriginal_split : longOriginal.Split longWire := gossipOriginal_split _ _

theorem length_le_intercalate {l : List (List UInt8)} :
    l.length ≤ ([44].intercalate l).length + 1 := by
  induction l with
  | nil => exact Nat.zero_le _
  | cons a l ih =>
    cases l with
    | nil => exact Nat.succ_le_succ (Nat.zero_le _)
    | cons b l =>
      rw [List.intercalate_cons_cons, List.length_append, List.length_append]
      simp only [List.length_cons, List.length_nil] at ih ⊢
      omega

theorem length_packets_gossip (data : MessageData) (id : InnerKey) :
    (gossipOriginal data id).packets.length = packetCount (gossipJson data) - 1 + 1 := by
  simp [gossipOriginal, packetize_eq]

theorem length_le_gossipJson (data : MessageData) : data.length ≤ (gossipJson data).length := by
  have h := length_le_intercalate (l := data.map fun b => jsonNat b.toNat)
  rw [List.length_map] at h
  simp only [gossipJson, jsonArray, List.length_append, List.length_cons]
  omega

theorem longOriginal_several : longOriginal.packets.length ≠ 1 := by
  have hbytes := length_le_gossipJson (List.replicate 1100 0)
  rw [List.length_replicate] at hbytes
  rw [longOriginal, length_packets_gossip]
  grind [packetCount]

/-- Its packets, each once. -/
def longArrivals : List Arrival := longOriginal.packets.map fun p => (p, someSender)

theorem longArrivals_family : ∀ a ∈ longArrivals, ∃ o ∈ [longOriginal], a.1 ∈ o.packets := by
  intro a ha
  obtain ⟨p, hp, rfl⟩ := List.mem_map.mp ha
  exact ⟨longOriginal, List.mem_singleton_self _, hp⟩

theorem longOriginal_unfinished_iff : ∃ h outs,
    (reassembler longWire).run ⟨∅⟩ longArrivals = some (h, outs) ∧
    (h.OnlyUnfinished ↔ Outstanding longArrivals) ∧
    ∀ family : List Original, (∀ o ∈ family, o.Split longWire) →
      (family.map Original.id).Nodup → (∀ a ∈ longArrivals, ∃ o ∈ family, a.1 ∈ o.packets) →
      (h.OnlyUnfinished ↔
        ∀ o ∈ family, o.packets.length ≠ 1 → ∃ p ∈ o.packets, p ∉ longArrivals.map Prod.fst) := by
  obtain ⟨h, outs, hrun, -⟩ := run_family_returns (gossipWire_lawful _)
    (fun o ho => List.mem_singleton.mp ho ▸ longOriginal_split) (by simp) longArrivals_family
  exact ⟨h, outs, hrun, only_unfinished_iff hrun⟩

/-- Received completely, and passed on, it stays in the table. -/
theorem finished_message_kept :
    ¬ ∀ (W : Wire) (family : List Original) (arrivals : List Arrival) (h : MessageHandler)
      (outs : List HandOver), (∀ o ∈ family, o.Split W) → (family.map Original.id).Nodup →
      (∀ a ∈ arrivals, ∃ o ∈ family, a.1 ∈ o.packets) →
      (reassembler W).run ⟨∅⟩ arrivals = some (h, outs) → h.OnlyUnfinished := by
  intro hall
  have hsplit : ∀ o ∈ [longOriginal], o.Split longWire :=
    fun o ho => List.mem_singleton.mp ho ▸ longOriginal_split
  have hids : ([longOriginal].map Original.id).Nodup := by simp
  obtain ⟨h, outs, hrun, -⟩ :=
    run_family_returns (gossipWire_lawful _) hsplit hids longArrivals_family
  have honly := hall _ _ _ h outs hsplit hids longArrivals_family hrun
  have hout := (records_of_run hrun).onlyUnfinished_iff.mp honly
  obtain ⟨p, hp, hno⟩ := (outstanding_iff hsplit hids longArrivals_family).mp hout longOriginal
    (List.mem_singleton_self _) longOriginal_several
  apply hno
  rw [longArrivals, List.map_map]
  exact List.mem_map.mpr ⟨p, hp, rfl⟩

end MessageHandler

end Udp2p
