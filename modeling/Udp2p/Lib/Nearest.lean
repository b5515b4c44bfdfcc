import Mathlib.Data.List.Sort

/-!
# The nearest elements of a list

`IsNearest d all count res` says that `res` is a choice of `count` elements of `all`, as often as
they occur there, with nothing left out that is strictly closer than something chosen. Sorting by
distance and truncating makes such a choice (`isNearest_sort_take`). Doing so in a part of the list
makes a choice for the whole iff every element outside that part has `count` elements of the part
at its distance or closer (`isNearest_pool_iff`).
-/

namespace Udp2p

section Nearest

variable {α δ : Type} [LinearOrder δ] (d : α → δ)

/-- `res` is `count` elements of `all`, or all of them, and no element left out is closer. -/
def IsNearest (all : List α) (count : Nat) (res : List α) : Prop :=
  res.length = min count all.length ∧
    ∃ rest, (res ++ rest).Perm all ∧ ∀ x ∈ res, ∀ y ∈ rest, ¬ d y < d x

/-- `sort_by_key`, then `truncate`. -/
def sortTake (l : List α) (count : Nat) : List α :=
  (l.insertionSort fun a b => d a ≤ d b).take count

variable {d}

theorem pairwise_sort (l : List α) :
    (l.insertionSort fun a b => d a ≤ d b).Pairwise fun a b => d a ≤ d b := by
  have : Std.Total fun a b : α => d a ≤ d b := ⟨fun a b => le_total (d a) (d b)⟩
  have : IsTrans α fun a b => d a ≤ d b := ⟨fun _ _ _ => le_trans⟩
  exact List.pairwise_insertionSort _ l

theorem sortTake_perm (l : List α) (count : Nat) :
    (sortTake d l count ++ (l.insertionSort fun a b => d a ≤ d b).drop count).Perm l := by
  rw [sortTake, List.take_append_drop]
  exact List.perm_insertionSort _ l

theorem length_sortTake (l : List α) (count : Nat) :
    (sortTake d l count).length = min count l.length := by
  rw [sortTake, List.length_take, List.length_insertionSort]

/-- What is cut off is no closer than what is kept. -/
theorem le_of_mem_sortTake {l : List α} {count : Nat} {x y : α} (hx : x ∈ sortTake d l count)
    (hy : y ∈ (l.insertionSort fun a b => d a ≤ d b).drop count) : d x ≤ d y := by
  have hsorted := pairwise_sort (d := d) l
  rw [← List.take_append_drop count (l.insertionSort _), List.pairwise_append] at hsorted
  exact hsorted.2.2 x hx y hy

/-- Taking everything leaves nothing out. -/
theorem isNearest_all {all : List α} {count : Nat} (h : all.length ≤ count) :
    IsNearest d all count all :=
  ⟨(Nat.min_eq_right h).symm, [], by simp, by simp⟩

/-- **Sorting and truncating** chooses nearest elements. -/
theorem isNearest_sort_take (all : List α) (count : Nat) :
    IsNearest d all count (sortTake d all count) :=
  ⟨length_sortTake all count, _, sortTake_perm all count,
    fun _ hx _ hy => not_lt.mpr (le_of_mem_sortTake hx hy)⟩

/-- The elements chosen from a pool are no farther than `y` iff `y` has `count` pool elements at
its distance or closer. -/
theorem forall_sortTake_le_iff {pool : List α} {count : Nat} (hcount : count ≤ pool.length)
    (y : α) : (∀ x ∈ sortTake d pool count, d x ≤ d y) ↔
      count ≤ pool.countP fun x => d x ≤ d y := by
  have hlen : (sortTake d pool count).length = count := by
    rw [length_sortTake, Nat.min_eq_left hcount]
  rw [← (sortTake_perm (d := d) pool count).countP_eq, List.countP_append]
  constructor
  · intro h
    have hall : (sortTake d pool count).countP (fun x => d x ≤ d y) = count := by
      rw [List.countP_eq_length.mpr fun x hx => decide_eq_true (h x hx), hlen]
    omega
  · intro h x hx
    by_contra hnot
    -- then nothing cut off is at the distance of `y`, and not all of the kept ones are
    have hzero : ((pool.insertionSort fun a b => d a ≤ d b).drop count).countP
        (fun x => d x ≤ d y) = 0 := by
      rw [List.countP_eq_zero]
      intro z hz hzy
      have hzy' : d z ≤ d y := by simpa using hzy
      exact hnot ((le_of_mem_sortTake hx hz).trans hzy')
    have hne : (sortTake d pool count).countP (fun x => d x ≤ d y) ≠
        (sortTake d pool count).length := by
      rw [Ne, List.countP_eq_length]
      exact fun hall => hnot (by simpa using hall x hx)
    have hle := List.countP_le_length (p := fun x => decide (d x ≤ d y))
      (l := sortTake d pool count)
    omega

/-- **Choosing from a pool** is choosing from everything iff nothing outside the pool has fewer
than `count` pool elements at its distance or closer. -/
theorem isNearest_pool_iff {all pool outside : List α} {count : Nat}
    (hperm : (pool ++ outside).Perm all) (hcount : count ≤ pool.length) :
    IsNearest d all count (sortTake d pool count) ↔
      ∀ y ∈ outside, count ≤ pool.countP fun x => d x ≤ d y := by
  have hpool := sortTake_perm (d := d) pool count
  have hlen : (sortTake d pool count).length = min count all.length := by
    have hall := hperm.length_eq
    rw [List.length_append] at hall
    rw [length_sortTake]
    omega
  have hall : (sortTake d pool count ++
      ((pool.insertionSort fun a b => d a ≤ d b).drop count ++ outside)).Perm all := by
    rw [← List.append_assoc]
    exact (hpool.append_right outside).trans hperm
  simp only [← forall_sortTake_le_iff hcount]
  constructor
  · intro hboth y hy x hx
    obtain ⟨-, rest, hrest, hfar⟩ := hboth
    have hsame := (List.perm_append_left_iff _).mp (hall.trans hrest.symm)
    exact not_lt.mp (hfar x hx y (hsame.mem_iff.mp (List.mem_append_right _ hy)))
  · intro h
    refine ⟨hlen, _, hall, fun x hx y hy => not_lt.mpr ?_⟩
    rcases List.mem_append.mp hy with hy | hy
    · exact le_of_mem_sortTake hx hy
    · exact h y hy x hx

end Nearest

end Udp2p
