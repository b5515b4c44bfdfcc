import Mathlib.Data.List.Infix
import Udp2p.Lib.Collections

/-!
# Prefix trees that overflow downwards

A table of buckets named by non-empty strings. A value that belongs to a path is put into the bucket
named by the shortest prefix of the path whose bucket is absent or not full (`place`). Tables grown
this way have two properties, and both are kept by every further `place`:

* `PrefixClosed` — with a bucket, the bucket of its name without the last letter is there,
* `InnerFull` — every bucket whose name is a proper prefix of another bucket's name is full.

`place_of_room` is what they are good for: a bucket on the path that has room is the place.
-/

namespace Udp2p

namespace PrefixTree

variable {α β : Type}

/-! ## Prefixes -/

/-- The non-empty prefixes of a path, shortest first, from length `i + 1` on. -/
def prefixesFrom (i : Nat) (path : List α) : List (List α) :=
  (List.range' i (path.length - i)).map fun j => path.take (j + 1)

theorem prefixesFrom_of_lt {i : Nat} {path : List α} (h : i < path.length) :
    prefixesFrom i path = path.take (i + 1) :: prefixesFrom (i + 1) path := by
  have hlen : path.length - i = path.length - (i + 1) + 1 := by omega
  rw [prefixesFrom, hlen, List.range'_succ, List.map_cons]
  rfl

theorem prefixesFrom_of_le {i : Nat} {path : List α} (h : path.length ≤ i) :
    prefixesFrom i path = [] := by
  rw [prefixesFrom, Nat.sub_eq_zero_of_le h]
  rfl

theorem mem_prefixesFrom_zero {path k : List α} :
    k ∈ prefixesFrom 0 path ↔ k <+: path ∧ k ≠ [] := by
  simp only [prefixesFrom, List.mem_map, List.mem_range'_1, Nat.zero_le, true_and, Nat.sub_zero,
    Nat.zero_add]
  constructor
  · intro h
    obtain ⟨j, hj, rfl⟩ := h
    refine ⟨List.take_prefix _ _, ?_⟩
    apply List.ne_nil_of_length_pos
    rw [List.length_take]
    omega
  · intro h
    obtain ⟨hpre, hne⟩ := h
    have hpos := List.length_pos_iff.mpr hne
    have hle := hpre.length_le
    refine ⟨k.length - 1, by omega, ?_⟩
    rw [Nat.sub_add_cancel hpos]
    exact (List.prefix_iff_eq_take.mp hpre).symm

/-- Two prefixes of one path with the same length are the same. -/
theorem eq_of_prefix_of_length_eq {path j k : List α} (hj : j <+: path) (hk : k <+: path)
    (hlen : j.length = k.length) : j = k :=
  (List.prefix_of_prefix_length_le hj hk (Nat.le_of_eq hlen)).eq_of_length hlen

/-! ## Placing -/

section Place

variable [DecidableEq α] (full : β → Bool) (tree : HashMap (List α) β)

/-- The bucket named `k` is absent or not full. -/
def HasRoom (k : List α) : Prop := ∀ b, tree.lookup k = some b → full b = false

instance (k : List α) : Decidable (HasRoom full tree k) :=
  match h : tree.lookup k with
  | none => isTrue fun b hb => by rw [h] at hb; cases hb
  | some b =>
    if hfull : full b = false then
      isTrue fun b' hb' => by rw [h, Option.some.injEq] at hb'; exact hb' ▸ hfull
    else isFalse fun hroom => hfull (hroom b h)

/-- The shortest prefix with room among those of length `i + 1` and more. -/
def placeFrom (i : Nat) (path : List α) : Option (List α) :=
  (prefixesFrom i path).find? fun k => decide (HasRoom full tree k)

/-- The shortest prefix with room. -/
def place (path : List α) : Option (List α) := placeFrom full tree 0 path

variable {full tree}

theorem place_isSome_iff {path : List α} :
    (place full tree path).isSome ↔ ∃ k, k <+: path ∧ k ≠ [] ∧ HasRoom full tree k := by
  rw [place, placeFrom, List.find?_isSome]
  simp only [mem_prefixesFrom_zero, decide_eq_true_eq, and_assoc]

/-- The prefixes are searched shortest first. -/
theorem placeFrom_shorter {path k : List α} {i : Nat}
    (h : placeFrom full tree i path = some k) {j : List α} (hj : j <+: path)
    (hi : i < j.length) (hlen : j.length < k.length) : ¬ HasRoom full tree j := by
  induction hn : path.length - i generalizing i with
  | zero => rw [placeFrom, prefixesFrom_of_le (by omega)] at h; cases h
  | succ n ih =>
    rw [placeFrom, prefixesFrom_of_lt (by omega), List.find?_cons] at h
    split at h
    · cases h
      simp only [List.length_take] at hlen
      omega
    · next hno =>
      -- the prefix of length `i + 1` was tried first and has no room
      by_cases heq : j.length = i + 1
      · rw [List.prefix_iff_eq_take.mp hj, heq]
        simpa using hno
      · exact ih h (by omega) (by omega)

theorem place_eq_some {path k : List α} (h : place full tree path = some k) :
    k <+: path ∧ k ≠ [] ∧ HasRoom full tree k ∧
      ∀ j, j <+: path → j ≠ [] → j.length < k.length → ∃ b, tree.lookup j = some b ∧ full b := by
  obtain ⟨hpre, hne⟩ := mem_prefixesFrom_zero.mp (List.mem_of_find?_eq_some h)
  refine ⟨hpre, hne, by simpa using List.find?_some h, fun j hj hjne hlt => ?_⟩
  have hnot := placeFrom_shorter h hj (List.length_pos_iff.mpr hjne) hlt
  simpa [HasRoom] using hnot

/-- The first letter names the place if it names a bucket with room. -/
theorem place_first {c : α} {path : List α} (h : HasRoom full tree [c]) :
    place full tree (c :: path) = some [c] := by
  rw [place, placeFrom, prefixesFrom_of_lt (Nat.zero_lt_succ _)]
  simp [h]

/-- The first two letters name the place if the first one names a full bucket. -/
theorem place_second {c d : α} {path : List α} (hfull : ¬ HasRoom full tree [c])
    (h : HasRoom full tree [c, d]) : place full tree (c :: d :: path) = some [c, d] := by
  rw [place, placeFrom, prefixesFrom_of_lt (Nat.zero_lt_succ _), prefixesFrom_of_lt (by simp)]
  simp [hfull, h]

end Place

/-! ## Closed tables -/

section Closed

variable [DecidableEq α]

/-- With a bucket, the bucket of its name without the last letter is there. -/
def PrefixClosed (tree : HashMap (List α) β) : Prop :=
  ∀ k, (tree.lookup k).isSome → 2 ≤ k.length → (tree.lookup k.dropLast).isSome

/-- Buckets whose names are proper prefixes of other buckets' names are full. -/
def InnerFull (full : β → Bool) (tree : HashMap (List α) β) : Prop :=
  ∀ k k' b, tree.lookup k = some b → (tree.lookup k').isSome → k <+: k' → k ≠ k' → k ≠ [] →
    full b

variable {full : β → Bool} {tree : HashMap (List α) β}

/-- A table with the same names is closed as well. -/
theorem PrefixClosed.congr {tree' : HashMap (List α) β} (h : PrefixClosed tree)
    (hkeys : ∀ k, (tree'.lookup k).isSome ↔ (tree.lookup k).isSome) : PrefixClosed tree' := by
  intro k hk hlen
  rw [hkeys] at hk ⊢
  exact h k hk hlen

/-- All prefixes of a name are names. -/
theorem PrefixClosed.isSome_of_prefix (h : PrefixClosed tree) {j k : List α}
    (hk : (tree.lookup k).isSome) (hj : j <+: k) (hne : j ≠ []) : (tree.lookup j).isSome := by
  induction hn : k.length - j.length generalizing k with
  | zero =>
    have hle := hj.length_le
    rw [hj.eq_of_length (by omega)]
    exact hk
  | succ n ih =>
    have hpos := List.length_pos_iff.mpr hne
    have hjk : j <+: k.dropLast :=
      List.prefix_of_prefix_length_le hj (List.dropLast_prefix k) (by
        rw [List.length_dropLast]
        omega)
    apply ih (h k hk (by omega)) hjk
    rw [List.length_dropLast]
    omega

/-- Placing keeps a table closed: the prefixes that were passed over are there. -/
theorem PrefixClosed.insert_place (h : PrefixClosed tree) {path k : List α}
    (hplace : place full tree path = some k) (b : β) : PrefixClosed (tree.insert k b) := by
  obtain ⟨hpre, hne, -, hshorter⟩ := place_eq_some hplace
  intro k' hk' hlen
  rw [AList.lookup_insert_ite] at hk' ⊢
  by_cases hlast : k'.dropLast = k
  · simp [hlast]
  · rw [if_neg hlast]
    by_cases hkk : k' = k
    · -- the place itself: its name without the last letter was passed over
      subst hkk
      have hdrop : k'.dropLast.length = k'.length - 1 := List.length_dropLast
      obtain ⟨b', hb', -⟩ := hshorter k'.dropLast ((List.dropLast_prefix k').trans hpre)
        (List.ne_nil_of_length_pos (by omega)) (by omega)
      simp [hb']
    · rw [if_neg hkk] at hk'
      exact h k' hk' hlen

/-- Placing keeps inner buckets full: the bucket that changes is not an inner one, and those it
becomes a descendant of were passed over because they are full. -/
theorem InnerFull.insert_place (h : InnerFull full tree) (hclosed : PrefixClosed tree)
    {path k : List α} (hplace : place full tree path = some k) (b : β) :
    InnerFull full (tree.insert k b) := by
  obtain ⟨hpre, hne, hroom, hshorter⟩ := place_eq_some hplace
  intro j j' c hc hj' hjj' hproper hjne
  rw [AList.lookup_insert_ite] at hc hj'
  by_cases hjk : j = k
  · -- the place has room, so it cannot have been an inner bucket
    subst hjk
    rw [if_neg fun heq => hproper heq.symm] at hj'
    obtain ⟨old, hold⟩ := Option.isSome_iff_exists.mp (hclosed.isSome_of_prefix hj' hjj' hjne)
    have hfull := h j j' old hold hj' hjj' hproper hjne
    rw [hroom old hold] at hfull
    cases hfull
  · rw [if_neg hjk] at hc
    by_cases hj'k : j' = k
    · -- `j` is on the path above the place, so the search passed it over
      subst hj'k
      have hle := hjj'.length_le
      have hlt : j.length < j'.length := by
        by_contra hnot
        exact hproper (hjj'.eq_of_length (by omega))
      obtain ⟨c', hc', hfull⟩ := hshorter j (hjj'.trans hpre) hjne hlt
      rw [hc, Option.some.injEq] at hc'
      exact hc' ▸ hfull
    · rw [if_neg hj'k] at hj'
      exact h j j' c hc hj' hjj' hproper hjne

/-- A bucket on the path that has room is the place: those above it are full, and it comes before
those below it. -/
theorem place_of_room (hclosed : PrefixClosed tree) (hinner : InnerFull full tree)
    {path k : List α} {b : β} (hb : tree.lookup k = some b) (hpre : k <+: path) (hne : k ≠ [])
    (hfull : full b = false) : place full tree path = some k := by
  have hroom : HasRoom full tree k := by
    intro b' hb'
    rw [hb, Option.some.injEq] at hb'
    exact hb' ▸ hfull
  obtain ⟨j, hplace⟩ := Option.isSome_iff_exists.mp (place_isSome_iff.mpr ⟨k, hpre, hne, hroom⟩)
  obtain ⟨hjpre, hjne, hjroom, hshorter⟩ := place_eq_some hplace
  rw [hplace, Option.some.injEq]
  rcases Nat.lt_trichotomy j.length k.length with hlt | heq | hgt
  · -- above `k` every bucket is full
    have hjk := List.prefix_of_prefix_length_le hjpre hpre (Nat.le_of_lt hlt)
    have hk : (tree.lookup k).isSome := by simp [hb]
    obtain ⟨c, hc⟩ := Option.isSome_iff_exists.mp (hclosed.isSome_of_prefix hk hjk hjne)
    have hproper : j ≠ k := fun h => absurd (congrArg List.length h) (Nat.ne_of_lt hlt)
    have hcfull := hinner j k c hc hk hjk hproper hjne
    rw [hjroom c hc] at hcfull
    cases hcfull
  · exact eq_of_prefix_of_length_eq hjpre hpre heq
  · -- below `k` the search would have stopped at `k`
    obtain ⟨c, hc, hcfull⟩ := hshorter k hpre hne hgt
    rw [hb, Option.some.injEq] at hc
    rw [← hc, hfull] at hcfull
    cases hcfull

end Closed

end PrefixTree

end Udp2p
