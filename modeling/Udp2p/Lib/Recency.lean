import Mathlib.Data.List.Pairwise

/-!
# Which element was used the longest time ago?

Elements are used one after another, and each use of a key replaces the one before it. What is left
is the last use of each key, in the order of the uses: the front was used the longest time ago, also
if some elements have been taken out since.

* `lastUses_concat` — a further use goes to the end, and takes the place of an earlier one.
* `unused_since` — after the last use of the front, everything behind it was used.
-/

namespace Udp2p

variable {α κ : Type} [DecidableEq κ] {key : α → κ}

/-- The last use of each key, in the order of the uses. -/
def lastUses (key : α → κ) (uses : List α) : List α := uses.pwFilter fun a b => key a ≠ key b

theorem key_not_in_lastUses {a : α} {uses : List α} :
    (∀ b ∈ lastUses key uses, key a ≠ key b) ↔ ∀ b ∈ uses, key a ≠ key b := by
  apply List.forall_mem_pwFilter
  intro x y z hne
  by_cases h : key x = key y
  · exact Or.inr (h ▸ hne)
  · exact Or.inl h

theorem lastUses_cons (a : α) (uses : List α) : lastUses key (a :: uses) =
    if ∀ b ∈ uses, key a ≠ key b then a :: lastUses key uses else lastUses key uses := by
  split
  · next h => exact List.pwFilter_cons_of_pos (key_not_in_lastUses.mpr h)
  · next h => exact List.pwFilter_cons_of_neg (mt key_not_in_lastUses.mp h)

/-- **A further use.** -/
theorem lastUses_concat (uses : List α) (x : α) : lastUses key (uses ++ [x]) =
    (lastUses key uses).filter (fun a => key a ≠ key x) ++ [x] := by
  induction uses with
  | nil => rfl
  | cons a uses ih =>
    rw [List.cons_append, lastUses_cons, lastUses_cons, ih]
    by_cases hx : key a = key x
    · -- the later use takes the place of this one
      have hnot : ¬ ∀ b ∈ uses ++ [x], key a ≠ key b := by
        intro h
        exact h x List.mem_concat_self hx
      rw [if_neg hnot]
      split
      · rw [List.filter_cons_of_neg (by simpa using hx)]
      · rfl
    · have hiff : (∀ b ∈ uses ++ [x], key a ≠ key b) ↔ ∀ b ∈ uses, key a ≠ key b := by
        simp [hx, or_imp, forall_and]
      by_cases h : ∀ b ∈ uses, key a ≠ key b
      · rw [if_pos (hiff.mpr h), if_pos h, List.filter_cons_of_pos (by simpa using hx),
          List.cons_append]
      · rw [if_neg (mt hiff.mp h), if_neg h]

/-- **The front** of what is kept of the last uses. -/
theorem unused_since {x : α} {rest uses : List α} (h : (x :: rest).Sublist (lastUses key uses)) :
    ∃ before since, uses = before ++ x :: since ∧ (∀ y ∈ since, key y ≠ key x) ∧ rest ⊆ since := by
  induction uses with
  | nil => cases h
  | cons a uses ih =>
    have hlater : (x :: rest).Sublist (lastUses key uses) → ∃ before since,
        a :: uses = before ++ x :: since ∧ (∀ y ∈ since, key y ≠ key x) ∧ rest ⊆ since := by
      intro hsub
      obtain ⟨before, since, rfl, hsince, hrest⟩ := ih hsub
      exact ⟨a :: before, since, rfl, hsince, hrest⟩
    rw [lastUses_cons] at h
    split at h
    · next hnew =>
      cases h with
      | cons _ hsub => exact hlater hsub
      | cons_cons _ hsub =>
        have hkept : (lastUses key uses).Sublist uses := List.pwFilter_sublist _
        refine ⟨[], uses, rfl, fun y hy => (hnew y hy).symm, ?_⟩
        exact (hsub.trans hkept).subset
    · exact hlater h

end Udp2p
