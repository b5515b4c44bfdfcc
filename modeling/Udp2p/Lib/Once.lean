import Mathlib.Data.Set.Basic

/-!
# At most one output for each key

A component remembers keys and emits outputs for keys that are new to it. If it never forgets a key
and remembers those it emits for, then it emits at most once for each, however its steps are put
together.

* `EmitsOnce` — the outputs emitted while the keys remembered grow from one set to another.
* `EmitsOnce.trans` — what one step has made known, the next emits nothing for.
-/

namespace Udp2p

variable {κ ω : Type} [DecidableEq κ]

/-- The outputs with a key: at most one for each, which was not remembered before and is then. -/
structure EmitsOnce (key : ω → Option κ) (known known' : Set κ) (out : List ω) : Prop where
  grows : known ⊆ known'
  once : ∀ k, (out.countP fun o => key o = some k) ≤ 1
  newcomer : ∀ o ∈ out, ∀ k, key o = some k → k ∉ known ∧ k ∈ known'

namespace EmitsOnce

variable {key : ω → Option κ} {known known' known'' : Set κ} {out out' : List ω}

/-- Nothing is emitted. -/
theorem nil (h : known ⊆ known') : EmitsOnce key known known' [] :=
  ⟨h, fun _ => Nat.zero_le _, fun _ ho => nomatch ho⟩

/-- One output, for a new key if it has one. -/
theorem singleton (h : known ⊆ known') {o : ω}
    (ho : ∀ k, key o = some k → k ∉ known ∧ k ∈ known') : EmitsOnce key known known' [o] where
  grows := h
  once _ := List.countP_le_length
  newcomer o' ho' := by
    rw [List.mem_singleton.mp ho']
    exact ho

theorem countP_eq_zero (h : EmitsOnce key known known' out) {k : κ} (hk : k ∈ known) :
    (out.countP fun o => key o = some k) = 0 := by
  rw [List.countP_eq_zero]
  intro o ho hkey
  exact (h.newcomer o ho k (by simpa using hkey)).1 hk

/-- **One step after another.** -/
theorem trans (h : EmitsOnce key known known' out) (h' : EmitsOnce key known' known'' out') :
    EmitsOnce key known known'' (out ++ out') where
  grows := h.grows.trans h'.grows
  once k := by
    rw [List.countP_append]
    rcases Nat.eq_zero_or_pos (out.countP fun o => key o = some k) with hzero | hpos
    · rw [hzero, Nat.zero_add]
      exact h'.once k
    · obtain ⟨o, ho, hkey⟩ := List.countP_pos_iff.mp hpos
      have hknown := (h.newcomer o ho k (by simpa using hkey)).2
      rw [h'.countP_eq_zero hknown, Nat.add_zero]
      exact h.once k
  newcomer o ho k hkey := by
    rcases List.mem_append.mp ho with ho | ho
    · obtain ⟨hnew, hknown⟩ := h.newcomer o ho k hkey
      exact ⟨hnew, h'.grows hknown⟩
    · obtain ⟨hnew, hknown⟩ := h'.newcomer o ho k hkey
      exact ⟨fun hold => hnew (h.grows hold), hknown⟩

end EmitsOnce

end Udp2p
