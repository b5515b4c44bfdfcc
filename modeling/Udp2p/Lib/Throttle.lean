import Mathlib.Order.Nat
import Udp2p.Lib.Machine

/-!
# How often does a throttled action happen?

A loop looks at a clock again and again, acts when a period has passed since its timer was set, and
sets the timer then. However often it looks, the actions are a period apart.

* `Paced` — how many times the timer has been set, by what it reads.
* `Machine.throttle` — a machine with an input that is given to it only when a period has passed.
* `Machine.run_of_throttle` — the inputs it is given.
* `Machine.count_throttled_le` — how many actions fit between two readings of the clock.
-/

namespace Udp2p

/-- Since `start` a timer has been set `k` times, a period lying between one time and the next. -/
def Paced (period start k timer : Nat) : Prop := 0 < k → start + (k - 1) * period ≤ timer

namespace Paced

variable {period start k timer : Nat}

theorem zero (period start timer : Nat) : Paced period start 0 timer := by
  intro h
  cases h

/-- The timer is set when a period has passed. -/
theorem again (h : Paced period start k timer) {now : Nat} (hstart : start ≤ now)
    (hdue : period ≤ now - timer) : Paced period start (k + 1) now := by
  intro _
  rw [Nat.add_sub_cancel]
  cases k with
  | zero => omega
  | succ k =>
    have htimer := h k.succ_pos
    rw [Nat.add_sub_cancel] at htimer
    rw [Nat.succ_mul]
    rcases Nat.eq_zero_or_pos period with hzero | hpos
    · simpa [hzero] using hstart
    · omega

theorem mono (h : Paced period start k timer) {timer' : Nat} (hle : timer ≤ timer') :
    Paced period start k timer' := by
  intro hk
  exact (h hk).trans hle

end Paced

/-- Two readings of a clock: the one that decides, and the one the timer is set to. -/
structure Look where
  now : Nat
  after : Nat
  deriving DecidableEq

section Clock

variable {κ : Type}

/-- Between calls of other kinds a clock is read, which shows no less every time, and at last at
most `stop`. -/
def Clocked (stop : Nat) : Nat → List (κ ⊕ Look) → Prop
  | start, [] => start ≤ stop
  | start, .inl _ :: is => Clocked stop start is
  | start, .inr look :: is => start ≤ look.now ∧ look.now ≤ look.after ∧ Clocked stop look.after is

instance decidableClocked (stop : Nat) :
    ∀ (start : Nat) (is : List (κ ⊕ Look)), Decidable (Clocked stop start is)
  | start, [] => inferInstanceAs (Decidable (start ≤ stop))
  | start, .inl _ :: is => decidableClocked stop start is
  | start, .inr look :: is =>
    have := decidableClocked stop look.after is
    inferInstanceAs
      (Decidable (start ≤ look.now ∧ look.now ≤ look.after ∧ Clocked stop look.after is))

theorem Clocked.le {stop start : Nat} {is : List (κ ⊕ Look)} (h : Clocked stop start is) :
    start ≤ stop := by
  induction is generalizing start with
  | nil => exact h
  | cons i is ih =>
    cases i with
    | inl k => exact ih h
    | inr look =>
      obtain ⟨hnow, hafter, hrest⟩ := h
      exact (hnow.trans hafter).trans (ih hrest)

end Clock

namespace Machine

variable {σ ι ω κ : Type} (M : Machine σ ι ω) (call : κ → ι) (tick : ι) (period : Nat)

/-- The machine with a timer, under calls and looks at the clock. A look that finds that the period
has passed gives it the input `tick`. -/
def throttle : Machine (σ × Nat) (κ ⊕ Look) ω where
  step s
    | .inl k => (M.step s.1 (call k)).map fun r => ((r.1, s.2), r.2)
    | .inr look =>
      if period ≤ look.now - s.2 then
        (M.step s.1 tick).map fun r => ((r.1, look.after), r.2)
      else some (s, [])

/-- The inputs the machine is given. -/
def throttled : Nat → List (κ ⊕ Look) → List ι
  | _, [] => []
  | timer, .inl k :: is => call k :: throttled timer is
  | timer, .inr look :: is =>
    if period ≤ look.now - timer then tick :: throttled look.after is else throttled timer is

/-- **A run of the throttled machine** is one of the machine itself. -/
theorem run_of_throttle {s t : σ} {timer timer' : Nat} {is : List (κ ⊕ Look)} {outs : List ω}
    (h : (M.throttle call tick period).run (s, timer) is = some ((t, timer'), outs)) :
    M.run s (throttled call tick period timer is) = some (t, outs) := by
  induction is generalizing s timer outs with
  | nil =>
    cases h
    rfl
  | cons i is ih =>
    obtain ⟨⟨s', timer₁⟩, out, outs', hstep, hrun, rfl⟩ := run_cons_eq_some _ |>.mp h
    cases i with
    | inl k =>
      obtain ⟨r, hr, heq⟩ := Option.map_eq_some_iff.mp hstep
      cases heq
      exact M.run_cons_eq_some.mpr ⟨_, _, _, hr, ih hrun, rfl⟩
    | inr look =>
      simp only [throttle] at hstep
      rw [throttled]
      split at hstep
      · next hdue =>
        obtain ⟨r, hr, heq⟩ := Option.map_eq_some_iff.mp hstep
        cases heq
        rw [if_pos hdue]
        exact M.run_cons_eq_some.mpr ⟨_, _, _, hr, ih hrun, rfl⟩
      · next hnot =>
        cases hstep
        rw [if_neg hnot]
        exact ih hrun

variable {call tick period}

/-- Inputs of other kinds are given as they come. -/
theorem countP_throttled {p : ι → Bool} (htick : p tick = false) (timer : Nat)
    (is : List (κ ⊕ Look)) : (throttled call tick period timer is).countP p =
      is.countP (Sum.elim (fun k => p (call k)) fun _ => false) := by
  induction is generalizing timer with
  | nil => rfl
  | cons i is ih =>
    cases i with
    | inl k =>
      rw [throttled, List.countP_cons, List.countP_cons, ih]
      rfl
    | inr look =>
      rw [throttled, List.countP_cons_of_neg (by simp)]
      split
      · rw [List.countP_cons_of_neg (by simp [htick]), ih]
      · exact ih timer

theorem mem_throttled {timer : Nat} {is : List (κ ⊕ Look)} {i : ι}
    (h : i ∈ throttled call tick period timer is) : i = tick ∨ ∃ k, .inl k ∈ is ∧ call k = i := by
  induction is generalizing timer with
  | nil => cases h
  | cons j is ih =>
    have hrest : ∀ {timer}, i ∈ throttled call tick period timer is →
        i = tick ∨ ∃ k, .inl k ∈ j :: is ∧ call k = i := by
      intro timer hmem
      rcases ih hmem with heq | ⟨k, hk, heq⟩
      · exact Or.inl heq
      · exact Or.inr ⟨k, List.mem_cons_of_mem j hk, heq⟩
    cases j with
    | inl k =>
      rcases List.mem_cons.mp h with rfl | hmem
      · exact Or.inr ⟨k, List.mem_cons_self, rfl⟩
      · exact hrest hmem
    | inr look =>
      rw [throttled] at h
      split at h
      · rcases List.mem_cons.mp h with heq | hmem
        · exact Or.inl heq
        · exact hrest hmem
      · exact hrest h

variable [DecidableEq ι]

/-- The actions of a run, after `k` before it, are paced. -/
theorem paced_throttled (hcall : ∀ k, call k ≠ tick) {start stop now timer k : Nat}
    (hstart : start ≤ now) {is : List (κ ⊕ Look)} (hclock : Clocked stop now is)
    (htimer : 0 < k → timer ≤ stop) (h : Paced period start k timer) :
    Paced period start (k + (throttled call tick period timer is).count tick) stop := by
  induction is generalizing now timer k with
  | nil => exact fun hk => (h hk).trans (htimer hk)
  | cons i is ih =>
    cases i with
    | inl c =>
      rw [throttled, List.count_cons_of_ne (hcall c)]
      exact ih hstart hclock htimer h
    | inr look =>
      obtain ⟨hnow, hafter, hrest⟩ := hclock
      rw [throttled]
      split
      · next hdue =>
        have hset := (h.again (hstart.trans hnow) hdue).mono hafter
        rw [List.count_cons_self, Nat.add_comm _ 1, ← Nat.add_assoc]
        exact ih ((hstart.trans hnow).trans hafter) hrest (fun _ => hrest.le) hset
      · exact ih ((hstart.trans hnow).trans hafter) hrest htimer h

/-- **How many actions fit** between two readings: all but one of them cost a period, and all of
them if the timer is set at first. -/
theorem count_throttled_le (hcall : ∀ k, call k ≠ tick) {start stop timer : Nat}
    {is : List (κ ⊕ Look)} (hclock : Clocked stop start is) :
    ((throttled call tick period timer is).count tick - 1) * period ≤ stop - start ∧
    (timer = start → (throttled call tick period timer is).count tick * period ≤ stop - start) := by
  constructor
  · have h := paced_throttled hcall le_rfl hclock (fun h => absurd h (Nat.lt_irrefl 0))
      (.zero period start timer)
    rw [Nat.zero_add] at h
    rcases Nat.eq_zero_or_pos ((throttled call tick period timer is).count tick) with hz | hpos
    · rw [hz, Nat.zero_sub, Nat.zero_mul]
      exact Nat.zero_le _
    · have hle := h hpos
      omega
  · intro heq
    subst heq
    -- the timer was set once before
    have hone : Paced period timer 1 timer := by
      intro _
      simp
    have h := paced_throttled hcall le_rfl hclock (fun _ => hclock.le) hone
    have hle := h (Nat.add_pos_left Nat.one_pos _)
    rw [Nat.add_sub_cancel_left] at hle
    omega

end Machine

end Udp2p
