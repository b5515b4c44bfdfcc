import Mathlib.Data.List.AList
import Mathlib.Data.List.Forall2
import Mathlib.Data.List.Perm.Subperm

/-!
# Collections: hash maps, hash sets and linked hash maps

* `HashMap κ ν` — a finite map with distinct keys, as Mathlib's `AList`. The order of its entries
  stands for the iteration order. Everything is proved through `lookup`, which does not see it.
* `HashSet α` — a list without repetitions, compared by membership.
* `LinkedHashMap κ ν M` — what a map type `M` that remembers insertion order offers, with its laws
  as fields, so that a development over an arbitrary such `M` needs no further hypothesis.
-/

namespace Udp2p

/-- A finite map with distinct keys. -/
abbrev HashMap (κ ν : Type) := AList fun _ : κ => ν

end Udp2p

/-! ## Hash maps -/

namespace AList

variable {κ ν : Type}

/-- The number of entries. -/
def len (m : AList fun _ : κ => ν) : Nat := m.entries.length

/-- Is there no entry at all? -/
def isEmpty (m : AList fun _ : κ => ν) : Bool := m.entries.isEmpty

/-- Keep the entries that `f` keeps, with the value `f` leaves in them. -/
def retain (m : AList fun _ : κ => ν) (f : κ → ν → Option ν) : AList fun _ : κ => ν where
  entries := m.entries.filterMap fun e => (f e.1 e.2).map (Sigma.mk e.1)
  nodupKeys := by
    rw [List.nodupKeys_iff_pairwise, List.pairwise_filterMap]
    apply (List.nodupKeys_iff_pairwise.mp m.nodupKeys).imp
    intro a b hab c hc d hd
    obtain ⟨v, -, rfl⟩ := Option.map_eq_some_iff.mp hc
    obtain ⟨w, -, rfl⟩ := Option.map_eq_some_iff.mp hd
    exact hab

theorem mem_entries_retain {m : AList fun _ : κ => ν} {f : κ → ν → Option ν} {k : κ} {v : ν} :
    ⟨k, v⟩ ∈ (m.retain f).entries ↔ ∃ w, ⟨k, w⟩ ∈ m.entries ∧ f k w = some v := by
  simp only [retain, List.mem_filterMap, Option.map_eq_some_iff, Sigma.exists, Sigma.mk.injEq]
  constructor
  · intro h
    obtain ⟨k', w, hmem, v', hf, rfl, hv⟩ := h
    cases hv
    exact ⟨w, hmem, hf⟩
  · intro h
    obtain ⟨w, hmem, hf⟩ := h
    exact ⟨k, w, hmem, v, hf, rfl, HEq.rfl⟩

variable [DecidableEq κ]

theorem lookup_eq_some_iff {m : AList fun _ : κ => ν} {k : κ} {v : ν} :
    m.lookup k = some v ↔ ⟨k, v⟩ ∈ m.entries :=
  mem_lookup_iff

theorem lookup_retain (m : AList fun _ : κ => ν) (f : κ → ν → Option ν) (k : κ) :
    (m.retain f).lookup k = (m.lookup k).bind (f k) := by
  ext v
  rw [lookup_eq_some_iff, mem_entries_retain, Option.bind_eq_some_iff]
  simp only [lookup_eq_some_iff]

theorem isEmpty_iff {m : AList fun _ : κ => ν} :
    m.isEmpty = true ↔ ∀ k, m.lookup k = none := by
  rw [isEmpty, List.isEmpty_iff]
  constructor
  · intro h k
    rw [lookup_eq_none, mem_keys, keys, h]
    simp
  · intro h
    rw [List.eq_nil_iff_forall_not_mem]
    intro e hmem
    obtain ⟨k, v⟩ := e
    simpa [h k] using lookup_eq_some_iff.mpr hmem

/-- `entry(k).or_insert(v)`: the value already there stays. -/
def orInsert (m : AList fun _ : κ => ν) (k : κ) (v : ν) : AList fun _ : κ => ν :=
  if k ∈ m then m else m.insert k v

theorem lookup_orInsert_self (m : AList fun _ : κ => ν) (k : κ) (v : ν) :
    (m.orInsert k v).lookup k = some ((m.lookup k).getD v) := by
  unfold orInsert
  split
  · next h =>
    obtain ⟨w, hw⟩ := Option.isSome_iff_exists.mp (lookup_isSome.mpr h)
    simp [hw]
  · next h => simp [lookup_eq_none.mpr h]

theorem lookup_orInsert_ne (m : AList fun _ : κ => ν) {k k' : κ} (v : ν) (h : k' ≠ k) :
    (m.orInsert k v).lookup k' = m.lookup k' := by
  unfold orInsert
  split
  · rfl
  · exact lookup_insert_ne h

theorem lookup_insert_ite (m : AList fun _ : κ => ν) (k k' : κ) (v : ν) :
    (m.insert k v).lookup k' = if k' = k then some v else m.lookup k' := by
  split
  · next h =>
    subst h
    exact lookup_insert m
  · next h => exact lookup_insert_ne h

theorem lookup_singleton (k k' : κ) (v : ν) :
    (AList.singleton k v : AList fun _ : κ => ν).lookup k' = if k' = k then some v else none := by
  split
  · next h => subst h; exact List.dlookup_cons_eq _ _ _
  · next h => exact List.dlookup_cons_ne _ _ h

theorem isEmpty_insert (m : AList fun _ : κ => ν) (k : κ) (v : ν) :
    (m.insert k v).isEmpty = false := by
  rw [← Bool.not_eq_true, isEmpty_iff, not_forall]
  exact ⟨k, by simp⟩

/-- Counting what the entries of a map yield: when only the entry of `k` can yield something that
counts, its yield is the count. -/
theorem countP_flatMap_entries {β : Type} {m : AList fun _ : κ => ν} {p : β → Bool}
    {f : (Σ _ : κ, ν) → List β} {k : κ}
    (h : ∀ e ∈ m.entries, e.1 ≠ k → (f e).countP p = 0) :
    (m.entries.flatMap f).countP p = ((m.lookup k).map fun v => (f ⟨k, v⟩).countP p).getD 0 := by
  obtain ⟨entries, hnodup⟩ := m
  show (entries.flatMap f).countP p = ((entries.dlookup k).map fun v => (f ⟨k, v⟩).countP p).getD 0
  induction entries with
  | nil => rfl
  | cons e es ih =>
    have htail := fun hes => ih hes fun a ha => h a (List.mem_cons_of_mem e ha)
    rw [List.flatMap_cons, List.countP_append]
    by_cases hk : e.1 = k
    · -- the entry of `k`: no later entry has this key
      obtain ⟨k', v⟩ := e
      subst hk
      have hnotin : k' ∉ es.keys := (List.nodupKeys_cons.mp hnodup).1
      rw [htail (List.nodupKeys_cons.mp hnodup).2, List.dlookup_cons_eq,
        List.dlookup_eq_none.mpr hnotin]
      rfl
    · rw [htail (List.nodupKeys_cons.mp hnodup).2, h e List.mem_cons_self hk,
        List.dlookup_cons_ne _ _ (Ne.symm hk), Nat.zero_add]

/-- A map whose keys all come from a list without repetitions has as many entries as the list iff
every element of the list is a key. -/
theorem len_eq_length_iff {m : AList fun _ : κ => ν} {l : List κ} (hl : l.Nodup)
    (hsub : ∀ k v, m.lookup k = some v → k ∈ l) :
    m.len = l.length ↔ ∀ k ∈ l, (m.lookup k).isSome := by
  have hlen : m.len = m.keys.length := by simp [len, keys, List.keys]
  have hkeys : m.keys ⊆ l := by
    intro k hk
    obtain ⟨v, hv⟩ := Option.isSome_iff_exists.mp (lookup_isSome.mpr (mem_keys.mpr hk))
    exact hsub k v hv
  have hsubperm : m.keys.Subperm l := List.subperm_of_subset m.keys_nodup hkeys
  rw [hlen]
  constructor
  · -- as many keys as elements: the keys are all of them
    intro heq k hk
    have hperm := hsubperm.perm_of_length_le (Nat.le_of_eq heq.symm)
    exact lookup_isSome.mpr (mem_keys.mpr (hperm.mem_iff.mpr hk))
  · intro h
    apply le_antisymm hsubperm.length_le
    apply List.Subperm.length_le
    apply List.subperm_of_subset hl
    intro k hk
    exact mem_keys.mp (lookup_isSome.mp (h k hk))

end AList

namespace Udp2p

/-! ## Lists -/

/-- A loop over fallible steps returns iff each step does. -/
theorem isSome_mapM_iff {α β : Type} {f : α → Option β} {l : List α} :
    (l.mapM f).isSome ↔ ∀ a ∈ l, (f a).isSome := by
  induction l with
  | nil => simp
  | cons a l ih =>
    rw [List.mapM_cons, List.forall_mem_cons, ← ih]
    cases f a with
    | none => simp
    | some b => cases l.mapM f <;> simp

/-- A loop over fallible steps yields what its steps yield, one after another. -/
theorem mapM_eq_some_iff {α β : Type} {f : α → Option β} {l : List α} {bs : List β} :
    l.mapM f = some bs ↔ List.Forall₂ (fun a b => f a = some b) l bs := by
  induction l generalizing bs with
  | nil =>
    rw [List.mapM_nil, List.forall₂_nil_left_iff]
    exact Option.some_inj.trans eq_comm
  | cons a l ih =>
    rw [List.mapM_cons, List.forall₂_cons_left_iff]
    constructor
    · intro h
      obtain ⟨b, hb, h⟩ := Option.bind_eq_some_iff.mp h
      obtain ⟨bs, hbs, h⟩ := Option.bind_eq_some_iff.mp h
      cases h
      exact ⟨b, bs, hb, ih.mp hbs, rfl⟩
    · rintro ⟨b, bs, hb, hbs, rfl⟩
      rw [hb, ih.mpr hbs]
      rfl

/-- What a loop over fallible steps yields comes from its steps. -/
theorem exists_of_mem_mapM {α β : Type} {f : α → Option β} {l : List α} {bs : List β}
    (h : l.mapM f = some bs) {b : β} (hb : b ∈ bs) : ∃ a ∈ l, f a = some b := by
  have hall := mapM_eq_some_iff.mp h
  obtain ⟨i, hi, rfl⟩ := List.getElem_of_mem hb
  have hil : i < l.length := hall.length_eq ▸ hi
  exact ⟨l[i], List.getElem_mem hil, hall.get hil hi⟩

/-- And every step yields something of it. -/
theorem exists_mem_of_mapM {α β : Type} {f : α → Option β} {l : List α} {bs : List β}
    (h : l.mapM f = some bs) {a : α} (ha : a ∈ l) : ∃ b ∈ bs, f a = some b := by
  have hall := mapM_eq_some_iff.mp h
  obtain ⟨i, hi, rfl⟩ := List.getElem_of_mem ha
  have hib : i < bs.length := hall.length_eq ▸ hi
  exact ⟨bs[i], List.getElem_mem hib, hall.get hi hib⟩

/-- Steps that yield the values of `g`, whenever they return. -/
theorem eq_map_of_mapM_eq_some {α β : Type} {f : α → Option β} {g : α → β}
    (hf : ∀ a b, f a = some b → b = g a) {l : List α} {r : List β} (h : l.mapM f = some r) :
    r = l.map g := by
  have hall : List.Forall₂ (· = ·) (l.map g) r :=
    List.forall₂_map_left_iff.mpr ((mapM_eq_some_iff.mp h).imp fun a b hb => (hf a b hb).symm)
  rw [List.forall₂_eq_eq_eq] at hall
  exact hall.symm

/-- What is written piece by piece is read piece by piece. -/
theorem mapM_of_inverse {α β : Type} {f : α → Option β} {g : β → Option α}
    (h : ∀ a b, f a = some b → g b = some a) {l : List α} {bs : List β}
    (hl : l.mapM f = some bs) : bs.mapM g = some l := by
  apply mapM_eq_some_iff.mpr
  exact ((mapM_eq_some_iff.mp hl).imp h).flip

theorem length_flatMap_le {α β : Type} {l : List α} {f : α → List β} {n : Nat}
    (h : ∀ a ∈ l, (f a).length ≤ n) : (l.flatMap f).length ≤ l.length * n := by
  induction l with
  | nil => simp
  | cons a l ih =>
    have ha := h a List.mem_cons_self
    have hl := ih fun b hb => h b (List.mem_cons_of_mem a hb)
    rw [List.flatMap_cons, List.length_append, List.length_cons]
    grind

/-! ## Hash sets -/

/-- A finite set, listed in its iteration order. -/
structure HashSet (α : Type) where
  toList : List α
  nodup : toList.Nodup

namespace HashSet

variable {α : Type}

instance : Membership α (HashSet α) := ⟨fun s a => a ∈ s.toList⟩

instance : EmptyCollection (HashSet α) := ⟨⟨[], List.nodup_nil⟩⟩

theorem mem_def {s : HashSet α} {a : α} : a ∈ s ↔ a ∈ s.toList := Iff.rfl

@[simp] theorem notMem_empty (a : α) : a ∉ (∅ : HashSet α) := List.not_mem_nil

/-- Two sets are equal when they have the same elements, whatever the iteration order. -/
def Same (s t : HashSet α) : Prop := ∀ a, a ∈ s ↔ a ∈ t

theorem Same.symm {s t : HashSet α} (h : s.Same t) : t.Same s := fun a => (h a).symm

/-- Every element of `s` is in `t`, and `t` has one more. -/
def ProperSubset (s t : HashSet α) : Prop := (∀ a ∈ s, a ∈ t) ∧ ∃ a ∈ t, a ∉ s

variable [DecidableEq α]

instance (a : α) (s : HashSet α) : Decidable (a ∈ s) := inferInstanceAs (Decidable (a ∈ s.toList))

instance (s t : HashSet α) : Decidable (s.Same t) :=
  decidable_of_iff ((∀ a ∈ s.toList, a ∈ t.toList) ∧ ∀ a ∈ t.toList, a ∈ s.toList)
    ⟨fun h a => ⟨h.1 a, h.2 a⟩, fun h => ⟨fun a => (h a).mp, fun a => (h a).mpr⟩⟩

/-- `insert`: an element already there changes nothing. -/
def insert (s : HashSet α) (a : α) : HashSet α where
  toList := s.toList.insert a
  nodup := s.nodup.insert

/-- `difference`: the elements of `s` that are not in `t`. -/
def difference (s t : HashSet α) : HashSet α where
  toList := s.toList.filter fun a => decide (a ∉ t)
  nodup := s.nodup.filter _

@[simp] theorem mem_insert {s : HashSet α} {a b : α} : b ∈ s.insert a ↔ b = a ∨ b ∈ s :=
  List.mem_insert_iff

@[simp] theorem mem_difference {s t : HashSet α} {a : α} :
    a ∈ s.difference t ↔ a ∈ s ∧ a ∉ t := by
  simp [mem_def, difference]

/-- A set filled by a loop. -/
theorem mem_foldl_insert {l : List α} {s : HashSet α} {a : α} :
    a ∈ l.foldl HashSet.insert s ↔ a ∈ l ∨ a ∈ s := by
  induction l generalizing s with
  | nil => simp
  | cons b l ih =>
    rw [List.foldl_cons, ih, mem_insert, List.mem_cons]
    tauto

theorem insert_of_mem {s : HashSet α} {a : α} (h : a ∈ s) : s.insert a = s := by
  obtain ⟨l, hl⟩ := s
  simp only [insert, mk.injEq]
  exact List.insert_of_mem h

theorem difference_toList_eq_nil {s t : HashSet α} :
    (s.difference t).toList = [] ↔ ∀ a ∈ s, a ∈ t := by
  simp [difference, List.filter_eq_nil_iff, mem_def]

/-- Unequal sets leave something to send unless the second properly contains the first. -/
theorem difference_ne_nil {s t : HashSet α} (hne : ¬ s.Same t) (hsub : ¬ s.ProperSubset t) :
    (s.difference t).toList ≠ [] := by
  rw [Ne, difference_toList_eq_nil]
  intro hall
  apply hne
  intro a
  refine ⟨hall a, fun ha => ?_⟩
  -- an element of `t` alone would make `s` a proper part of it
  by_contra hs
  exact hsub ⟨hall, a, ha, hs⟩

end HashSet

/-! ## Linked hash maps -/

/-- The operations of a map that iterates in insertion order, and what they do to that order:
`insert` appends a new key and moves a known one to the back. -/
class LinkedHashMap (κ ν : outParam Type) [DecidableEq κ] (M : Type) where
  empty : M
  insert : M → κ → ν → M
  remove : M → κ → M
  popFront : M → Option ((κ × ν) × M)
  get : M → κ → Option ν
  containsKey : M → κ → Bool
  len : M → Nat
  iter : M → List (κ × ν)
  nodup_keys : ∀ m, ((iter m).map Prod.fst).Nodup
  iter_empty : iter empty = []
  iter_insert : ∀ m k v, iter (insert m k v) = (iter m).filter (fun e => e.1 ≠ k) ++ [(k, v)]
  iter_remove : ∀ m k, iter (remove m k) = (iter m).filter (fun e => e.1 ≠ k)
  popFront_eq_none : ∀ m, popFront m = none ↔ iter m = []
  iter_popFront : ∀ m e m', popFront m = some (e, m') → iter m = e :: iter m'
  get_eq : ∀ m k, get m k = ((iter m).find? fun e => e.1 = k).map Prod.snd
  containsKey_eq : ∀ m k, containsKey m k = (iter m).any fun e => e.1 = k
  len_eq : ∀ m, len m = (iter m).length

namespace LinkedHashMap

variable {κ ν : Type}

/-- The reference implementation: the list of entries itself. -/
structure Listed (κ ν : Type) where
  entries : List (κ × ν)
  nodup_keys : (entries.map Prod.fst).Nodup

theorem nodup_keys_filter {l : List (κ × ν)} (h : (l.map Prod.fst).Nodup) (p : κ × ν → Bool) :
    ((l.filter p).map Prod.fst).Nodup :=
  h.sublist (List.filter_sublist.map _)

variable [DecidableEq κ]

instance : LinkedHashMap κ ν (Listed κ ν) where
  empty := ⟨[], List.nodup_nil⟩
  insert m k v :=
    { entries := m.entries.filter (fun e => e.1 ≠ k) ++ [(k, v)]
      nodup_keys := by
        rw [List.map_append, List.nodup_append]
        refine ⟨nodup_keys_filter m.nodup_keys _, by simp, ?_⟩
        intro a ha b hb
        obtain ⟨e, he, rfl⟩ := List.mem_map.mp ha
        have hne : e.1 ≠ k := by simpa using (List.mem_filter.mp he).2
        simpa [List.mem_singleton.mp hb] using hne }
  remove m k := ⟨m.entries.filter fun e => e.1 ≠ k, nodup_keys_filter m.nodup_keys _⟩
  popFront m :=
    match h : m.entries with
    | [] => none
    | e :: es => some (e, ⟨es, by
        have hn := m.nodup_keys
        rw [h, List.map_cons] at hn
        exact hn.of_cons⟩)
  get m k := (m.entries.find? fun e => e.1 = k).map Prod.snd
  containsKey m k := m.entries.any fun e => e.1 = k
  len m := m.entries.length
  iter m := m.entries
  nodup_keys m := m.nodup_keys
  iter_empty := rfl
  iter_insert _ _ _ := rfl
  iter_remove _ _ := rfl
  popFront_eq_none m := by
    rcases m with ⟨_ | ⟨e, es⟩, hm⟩ <;> simp
  iter_popFront m e m' h := by
    rcases m with ⟨_ | ⟨e, es⟩, hm⟩
    · simp at h
    · obtain ⟨rfl, rfl⟩ := by simpa using h
      rfl
  get_eq _ _ := rfl
  containsKey_eq _ _ := rfl
  len_eq _ := rfl

variable {M : Type} [LinkedHashMap κ ν M]

theorem containsKey_iff {m : M} {k : κ} :
    containsKey m k = true ↔ ∃ v, (k, v) ∈ iter m := by
  rw [containsKey_eq, List.any_eq_true]
  constructor
  · intro h
    obtain ⟨⟨k', v⟩, hmem, hk⟩ := h
    have : k' = k := by simpa using hk
    exact ⟨v, this ▸ hmem⟩
  · intro h
    obtain ⟨v, hmem⟩ := h
    exact ⟨(k, v), hmem, by simp⟩

theorem mem_iter_insert {m : M} {k k' : κ} {v v' : ν} :
    (k', v') ∈ iter (insert m k v) ↔ (k' = k ∧ v' = v) ∨ (k' ≠ k ∧ (k', v') ∈ iter m) := by
  rw [iter_insert, List.mem_append, List.mem_filter, List.mem_singleton, Prod.mk.injEq]
  constructor
  · intro h
    rcases h with ⟨hmem, hne⟩ | h
    · exact Or.inr ⟨by simpa using hne, hmem⟩
    · exact Or.inl h
  · intro h
    rcases h with h | ⟨hne, hmem⟩
    · exact Or.inr h
    · exact Or.inl ⟨hmem, by simpa using hne⟩

end LinkedHashMap

end Udp2p
