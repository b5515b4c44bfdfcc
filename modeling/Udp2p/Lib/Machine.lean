import Mathlib.Data.List.Induction

/-!
# Machines: runs of a step function that emits outputs and may panic

A component is a step function `σ → ι → Option (σ × List ω)`: from a state and an input it moves
to a new state and emits outputs, or it panics (`none`). Everything a component does over a whole
run is then stated about `Machine.run`, and proved by one of three rules.

* `run_induct` — a state predicate kept by every step holds at the end of every run.
* `run_history` — the same for a relation between the state, the inputs consumed so far and the
  outputs emitted so far. This is the rule behind every "exactly the outputs that ..." result.
* `run_isSome_iff_always` — a run returns iff each of its steps meets the condition under which
  the step function returns.

`annotate` takes notes of a run; `project` and `simulate` find the run of a component, or of a more
abstract machine, in a run of the system.

Nothing here knows what the states, inputs and outputs are.
-/

namespace Udp2p

/-- A partial step function with outputs; `none` is a panic. -/
structure Machine (σ ι ω : Type) where
  step : σ → ι → Option (σ × List ω)

namespace Machine

variable {σ ι ω : Type} (M : Machine σ ι ω)

/-- Feed a list of inputs, one step each; `none` as soon as one step panics. -/
def run : σ → List ι → Option (σ × List ω)
  | s, [] => some (s, [])
  | s, i :: is => do
    let (s', out) ← M.step s i
    let (s'', outs) ← run s' is
    return (s'', out ++ outs)

@[simp] theorem run_nil (s : σ) : M.run s [] = some (s, []) := rfl

theorem run_cons_eq_some {s t : σ} {i : ι} {is : List ι} {outs : List ω} :
    M.run s (i :: is) = some (t, outs) ↔
      ∃ s' out outs', M.step s i = some (s', out) ∧ M.run s' is = some (t, outs') ∧
        outs = out ++ outs' := by
  simp only [run, Option.bind_eq_bind, Option.pure_def, Option.bind_eq_some_iff, Prod.exists,
    Option.some.injEq, Prod.mk.injEq]
  constructor
  · rintro ⟨s', out, hstep, t', outs', hrun, rfl, rfl⟩
    exact ⟨s', out, outs', hstep, hrun, rfl⟩
  · rintro ⟨s', out, outs', hstep, hrun, rfl⟩
    exact ⟨s', out, hstep, t, outs', hrun, rfl, rfl⟩

theorem run_append_eq_some {s t : σ} {is js : List ι} {outs : List ω} :
    M.run s (is ++ js) = some (t, outs) ↔
      ∃ s' o₁ o₂, M.run s is = some (s', o₁) ∧ M.run s' js = some (t, o₂) ∧ outs = o₁ ++ o₂ := by
  induction is generalizing s outs with
  | nil => simp
  | cons i is ih =>
    rw [List.cons_append, run_cons_eq_some]
    constructor
    · rintro ⟨s₁, o, o', hstep, hrun, rfl⟩
      obtain ⟨s', o₁, o₂, h₁, h₂, rfl⟩ := ih.mp hrun
      exact ⟨s', o ++ o₁, o₂, M.run_cons_eq_some.mpr ⟨s₁, o, o₁, hstep, h₁, rfl⟩, h₂, by simp⟩
    · rintro ⟨s', o₁, o₂, h₁, h₂, rfl⟩
      obtain ⟨s₁, o, o', hstep, hrun, rfl⟩ := M.run_cons_eq_some.mp h₁
      exact ⟨s₁, o, o' ++ o₂, hstep, ih.mpr ⟨s', o', o₂, hrun, h₂, rfl⟩, by simp⟩

theorem run_singleton_eq_some {s t : σ} {i : ι} {outs : List ω} :
    M.run s [i] = some (t, outs) ↔ M.step s i = some (t, outs) := by
  rw [run_cons_eq_some]
  simp

theorem run_concat_eq_some {s t : σ} {is : List ι} {i : ι} {outs : List ω} :
    M.run s (is ++ [i]) = some (t, outs) ↔
      ∃ s' o₁ o₂, M.run s is = some (s', o₁) ∧ M.step s' i = some (t, o₂) ∧ outs = o₁ ++ o₂ := by
  simp only [run_append_eq_some, run_singleton_eq_some]

/-! ## Invariants over runs -/

/-- A state predicate that every step keeps holds at the end of every run. -/
theorem run_induct {P : σ → Prop}
    (hstep : ∀ s i s' out, P s → M.step s i = some (s', out) → P s')
    {s t : σ} {is : List ι} {outs : List ω} (hs : P s) (h : M.run s is = some (t, outs)) :
    P t := by
  -- `P` moves to the next state with every input
  induction is generalizing s outs with
  | nil => cases h; exact hs
  | cons i is ih =>
    obtain ⟨s', out, outs', h₁, h₂, -⟩ := M.run_cons_eq_some.mp h
    exact ih (hstep s i s' out hs h₁) h₂

/-- A relation between the state, the inputs so far and the outputs so far, kept by every step
whose input satisfies `A`, holds at the end of every run over such inputs. -/
theorem run_history {P : σ → List ι → List ω → Prop} {A : ι → Prop}
    (hstep : ∀ s hist outs i s' out, P s hist outs → A i → M.step s i = some (s', out) →
      P s' (hist ++ [i]) (outs ++ out))
    {s t : σ} {is : List ι} {outs : List ω} (hs : P s [] []) (hA : ∀ i ∈ is, A i)
    (h : M.run s is = some (t, outs)) : P t is outs := by
  -- the history grows at its end, so the induction peels inputs off there
  induction is using List.reverseRecOn generalizing t outs with
  | nil => cases h; exact hs
  | append_singleton is i ih =>
    obtain ⟨s', o₁, o₂, h₁, h₂, rfl⟩ := M.run_concat_eq_some.mp h
    have hprev := ih (fun j hj => hA j (List.mem_append_left _ hj)) h₁
    exact hstep _ _ _ _ _ _ hprev (hA i (by simp)) h₂

/-- The same, where a step may rely on all that is known of the run before it. -/
theorem run_history_reached {P : σ → List ι → List ω → Prop} {s₀ : σ}
    (hstep : ∀ s hist outs i s' out, M.run s₀ hist = some (s, outs) → P s hist outs →
      M.step s i = some (s', out) → P s' (hist ++ [i]) (outs ++ out))
    {t : σ} {is : List ι} {outs : List ω} (hs : P s₀ [] []) (h : M.run s₀ is = some (t, outs)) :
    P t is outs := by
  have hboth := M.run_history (A := fun _ => True)
    (P := fun s hist outs => M.run s₀ hist = some (s, outs) ∧ P s hist outs)
    ?_ ⟨rfl, hs⟩ (fun _ _ => trivial) h
  · exact hboth.2
  · intro s hist outs i s' out hprev _ hi
    refine ⟨?_, hstep s hist outs i s' out hprev.1 hprev.2 hi⟩
    exact M.run_concat_eq_some.mpr ⟨s, outs, out, hprev.1, hi, rfl⟩

/-- If an invariant of state and inputs so far rules out a panic at every step, runs return. -/
theorem run_total {P : σ → List ι → Prop} {A : ι → Prop}
    (hstep : ∀ s hist i, P s hist → A i →
      ∃ s' out, M.step s i = some (s', out) ∧ P s' (hist ++ [i]))
    {s : σ} {is : List ι} (hs : P s []) (hA : ∀ i ∈ is, A i) :
    ∃ t outs, M.run s is = some (t, outs) ∧ P t is := by
  induction is using List.reverseRecOn with
  | nil => exact ⟨s, [], rfl, hs⟩
  | append_singleton is i ih =>
    obtain ⟨t, o₁, h₁, hP⟩ := ih fun j hj => hA j (List.mem_append_left _ hj)
    obtain ⟨t', o₂, h₂, hP'⟩ := hstep t is i hP (hA i (by simp))
    exact ⟨t', o₁ ++ o₂, M.run_concat_eq_some.mpr ⟨t, o₁, o₂, h₁, h₂, rfl⟩, hP'⟩

/-! ## Conditions on every step of a run -/

/-- Every step taken from `s` along `is` starts in a state that meets `C` for its input. -/
def Always (C : σ → ι → Prop) : σ → List ι → Prop
  | _, [] => True
  | s, i :: is => C s i ∧ ∀ s' out, M.step s i = some (s', out) → Always C s' is

@[simp] theorem always_nil (C : σ → ι → Prop) (s : σ) : M.Always C s [] := trivial

theorem always_cons_of_step {C : σ → ι → Prop} {s s' : σ} {i : ι} {is : List ι} {out : List ω}
    (h : M.step s i = some (s', out)) : M.Always C s (i :: is) ↔ C s i ∧ M.Always C s' is := by
  simp [Always, h]

theorem always_append_of_run {C : σ → ι → Prop} {s t : σ} {is js : List ι} {outs : List ω}
    (h : M.run s is = some (t, outs)) :
    M.Always C s (is ++ js) ↔ M.Always C s is ∧ M.Always C t js := by
  induction is generalizing s outs with
  | nil => cases h; simp
  | cons i is ih =>
    obtain ⟨s', out, outs', h₁, h₂, -⟩ := M.run_cons_eq_some.mp h
    rw [List.cons_append, M.always_cons_of_step h₁, M.always_cons_of_step h₁, ih h₂, and_assoc]

theorem always_concat_of_run {C : σ → ι → Prop} {s t : σ} {is : List ι} {i : ι} {outs : List ω}
    (h : M.run s is = some (t, outs)) :
    M.Always C s (is ++ [i]) ↔ M.Always C s is ∧ C t i := by
  rw [M.always_append_of_run h]
  simp [Always]

theorem Always.imp {C D : σ → ι → Prop} (hCD : ∀ s i, C s i → D s i) {s : σ} {is : List ι}
    (h : M.Always C s is) : M.Always D s is := by
  induction is generalizing s with
  | nil => trivial
  | cons i is ih => exact ⟨hCD s i h.1, fun s' out hstep => ih (h.2 s' out hstep)⟩

/-- Along a run that returns, a condition may be replaced by one that is equivalent for the steps
that return, in states that meet an invariant. -/
theorem always_congr_of_run {P : σ → Prop} {C D : σ → ι → Prop}
    (hkeep : ∀ s i s' out, P s → M.step s i = some (s', out) → P s')
    (hiff : ∀ s i s' out, P s → M.step s i = some (s', out) → (C s i ↔ D s i)) {s t : σ} (hs : P s)
    {is : List ι} {outs : List ω} (h : M.run s is = some (t, outs)) :
    M.Always C s is ↔ M.Always D s is := by
  induction is generalizing s outs with
  | nil => simp
  | cons i is ih =>
    obtain ⟨s', out, outs', h₁, h₂, -⟩ := M.run_cons_eq_some.mp h
    rw [M.always_cons_of_step h₁, M.always_cons_of_step h₁, hiff s i s' out hs h₁,
      ih (hkeep s i s' out hs h₁) h₂]

/-- An invariant that implies a condition makes every step meet it. -/
theorem always_of_invariant {P : σ → Prop} {A : ι → Prop} {C : σ → ι → Prop}
    (hkeep : ∀ s i s' out, P s → A i → M.step s i = some (s', out) → P s')
    (hC : ∀ s i, P s → A i → C s i) {s : σ} (hs : P s) {is : List ι} (hA : ∀ i ∈ is, A i) :
    M.Always C s is := by
  induction is generalizing s with
  | nil => trivial
  | cons i is ih =>
    have hi := hA i List.mem_cons_self
    refine ⟨hC s i hs hi, fun s' out hstep => ?_⟩
    exact ih (hkeep s i s' out hs hi hstep) fun j hj => hA j (List.mem_cons_of_mem i hj)

/-- A run over inputs that satisfy `A` returns iff each of its steps meets the condition under which
a step returns. The condition may rely on an invariant `P` of the states the run passes through. -/
theorem run_isSome_iff_always {P : σ → Prop} {A : ι → Prop} {C : σ → ι → Prop}
    (hkeep : ∀ s i s' out, P s → M.step s i = some (s', out) → P s')
    (hiff : ∀ s i, P s → A i → ((M.step s i).isSome ↔ C s i)) {s : σ} (hs : P s) {is : List ι}
    (hA : ∀ i ∈ is, A i) : (M.run s is).isSome ↔ M.Always C s is := by
  induction is generalizing s with
  | nil => simp
  | cons i is ih =>
    have hi := hiff s i hs (hA i List.mem_cons_self)
    cases h : M.step s i with
    | none =>
      -- the first step panics, and its condition fails with it
      have hC : ¬ C s i := fun hC => by simpa [h] using hi.mpr hC
      simp [run, h, Always, hC]
    | some r =>
      obtain ⟨s', out⟩ := r
      have hC : C s i := hi.mp (by simp [h])
      have hrest := ih (hkeep s i s' out hs h) fun j hj => hA j (List.mem_cons_of_mem i hj)
      cases hrun : M.run s' is with
      | none =>
        rw [hrun] at hrest
        simpa [run, h, hrun, Always, hC] using hrest
      | some r' =>
        rw [hrun] at hrest
        simpa [run, h, hrun, Always, hC] using hrest

/-! ## What happens before a panic -/

/-- The inputs handled before the first panic: all of them when the run returns. -/
def handled : σ → List ι → List ι
  | _, [] => []
  | s, i :: is =>
    match M.step s i with
    | none => []
    | some (s', _) => i :: handled s' is

/-- The outputs emitted before the first panic. -/
def emitted : σ → List ι → List ω
  | _, [] => []
  | s, i :: is =>
    match M.step s i with
    | none => []
    | some (s', out) => out ++ emitted s' is

/-- The handled inputs are a run of their own, with the emitted outputs. -/
theorem run_handled (s : σ) (is : List ι) :
    ∃ t, M.run s (M.handled s is) = some (t, M.emitted s is) := by
  induction is generalizing s with
  | nil => exact ⟨s, rfl⟩
  | cons i is ih =>
    cases h : M.step s i with
    | none => exact ⟨s, by simp [handled, emitted, h]⟩
    | some r =>
      obtain ⟨s', out⟩ := r
      obtain ⟨t, ht⟩ := ih s'
      refine ⟨t, ?_⟩
      simp only [handled, emitted, h]
      exact M.run_cons_eq_some.mpr ⟨s', out, _, h, ht, rfl⟩

/-- When the run returns, all inputs are handled and the emitted outputs are the run's. -/
theorem handled_emitted_of_run {s t : σ} {is : List ι} {outs : List ω}
    (h : M.run s is = some (t, outs)) : M.handled s is = is ∧ M.emitted s is = outs := by
  induction is generalizing s outs with
  | nil =>
    cases h
    exact ⟨rfl, rfl⟩
  | cons i is ih =>
    obtain ⟨s', out, outs', h₁, h₂, rfl⟩ := M.run_cons_eq_some.mp h
    obtain ⟨hh, he⟩ := ih h₂
    simp [handled, emitted, h₁, hh, he]

theorem handled_subset (s : σ) (is : List ι) : M.handled s is ⊆ is := by
  induction is generalizing s with
  | nil => simp [handled]
  | cons i is ih =>
    cases h : M.step s i with
    | none => simp [handled, h]
    | some r =>
      simp only [handled, h]
      exact List.cons_subset_cons i (ih r.1)

/-! ## Watching some of the inputs -/

/-- The same machine with the outputs of the inputs outside `keep` left out. -/
def observe (keep : ι → Bool) : Machine σ ι ω where
  step s i := (M.step s i).map fun r => (r.1, if keep i then r.2 else [])

theorem observe_step_eq_some {keep : ι → Bool} {s s' : σ} {i : ι} {out : List ω} :
    (M.observe keep).step s i = some (s', out) ↔
      ∃ o, M.step s i = some (s', o) ∧ out = if keep i then o else [] := by
  simp only [observe, Option.map_eq_some_iff, Prod.exists, Prod.mk.injEq]
  constructor
  · rintro ⟨t, o, h, rfl, rfl⟩
    exact ⟨o, h, rfl⟩
  · rintro ⟨o, h, rfl⟩
    exact ⟨s', o, h, rfl, rfl⟩

/-! ## Taking notes -/

section Notes

variable {κ : Type} {note : σ → ι → List κ} {M}

/-- The same machine with notes beside its outputs; what is noted of a step depends on the state
before it and the input. -/
def annotate (M : Machine σ ι ω) (note : σ → ι → List κ) : Machine σ ι (ω ⊕ κ) where
  step s i := (M.step s i).map fun r => (r.1, r.2.map .inl ++ (note s i).map .inr)

theorem annotate_step_eq_some {s s' : σ} {i : ι} {log : List (ω ⊕ κ)} :
    (M.annotate note).step s i = some (s', log) ↔
      ∃ out, M.step s i = some (s', out) ∧ log = out.map .inl ++ (note s i).map .inr := by
  simp only [annotate, Option.map_eq_some_iff, Prod.exists, Prod.mk.injEq]
  constructor
  · rintro ⟨t, out, h, rfl, rfl⟩
    exact ⟨out, h, rfl⟩
  · rintro ⟨out, h, rfl⟩
    exact ⟨s', out, h, rfl, rfl⟩

theorem filterMap_getLeft (out : List ω) (ns : List κ) :
    (out.map Sum.inl ++ ns.map Sum.inr).filterMap Sum.getLeft? = out := by
  have hleft : out.filterMap (Sum.getLeft? ∘ (Sum.inl : ω → ω ⊕ κ)) = out :=
    List.filterMap_some
  have hright : ns.filterMap (Sum.getLeft? ∘ (Sum.inr : κ → ω ⊕ κ)) = [] :=
    List.filterMap_eq_nil_iff.mpr fun _ _ => rfl
  rw [List.filterMap_append, List.filterMap_map, List.filterMap_map, hleft, hright, List.append_nil]

/-- Leaving the notes out of a run gives the run. -/
theorem run_of_annotate {s t : σ} {is : List ι} {log : List (ω ⊕ κ)}
    (h : (M.annotate note).run s is = some (t, log)) :
    M.run s is = some (t, log.filterMap Sum.getLeft?) := by
  induction is generalizing s log with
  | nil =>
    cases h
    rfl
  | cons i is ih =>
    obtain ⟨s', _, log', hstep, hrun, rfl⟩ := run_cons_eq_some _ |>.mp h
    obtain ⟨out, hout, rfl⟩ := annotate_step_eq_some.mp hstep
    refine M.run_cons_eq_some.mpr ⟨s', out, _, hout, ih hrun, ?_⟩
    rw [List.filterMap_append, filterMap_getLeft]

/-- A run that returns does so with notes. -/
theorem exists_annotate_of_run (note : σ → ι → List κ) {s t : σ} {is : List ι} {outs : List ω}
    (h : M.run s is = some (t, outs)) : ∃ log, (M.annotate note).run s is = some (t, log) := by
  induction is generalizing s outs with
  | nil =>
    cases h
    exact ⟨[], rfl⟩
  | cons i is ih =>
    obtain ⟨s', out, outs', hstep, hrun, -⟩ := M.run_cons_eq_some.mp h
    obtain ⟨log, hlog⟩ := ih hrun
    exact ⟨_, run_cons_eq_some _ |>.mpr
      ⟨s', _, log, annotate_step_eq_some.mpr ⟨out, hstep, rfl⟩, hlog, rfl⟩⟩

end Notes

/-- **Projection.** If what every step puts out tells what a component was given and what it gave
out, then over a run the component has run on what it was given. -/
theorem project {σ' ι' ω' : Type} {N : Machine σ' ι' ω'} {view : σ → σ'} {given : ω → Option ι'}
    {gave : ω → Option ω'}
    (hstep : ∀ s i s' out, M.step s i = some (s', out) →
      N.run (view s) (out.filterMap given) = some (view s', out.filterMap gave))
    {s t : σ} {is : List ι} {outs : List ω} (h : M.run s is = some (t, outs)) :
    N.run (view s) (outs.filterMap given) = some (view t, outs.filterMap gave) := by
  induction is generalizing s outs with
  | nil =>
    cases h
    rfl
  | cons i is ih =>
    obtain ⟨s', out, outs', h₁, h₂, rfl⟩ := M.run_cons_eq_some.mp h
    rw [List.filterMap_append, List.filterMap_append]
    exact N.run_append_eq_some.mpr ⟨view s', _, _, hstep s i s' out h₁, ih h₂, rfl⟩

/-- **Simulation.** If what every step puts out tells what another machine was given to make the
same move, from states that meet an invariant, then every run is a run of that machine. -/
theorem simulate {σ' ι' ω' : Type} {N : Machine σ' ι' ω'} (view : σ → σ') {P : σ → Prop}
    {given : ω → Option ι'}
    (hstep : ∀ s i s' out, P s → M.step s i = some (s', out) →
      P s' ∧ ∃ o, N.run (view s) (out.filterMap given) = some (view s', o))
    {s t : σ} {is : List ι} {outs : List ω} (hs : P s) (h : M.run s is = some (t, outs)) :
    P t ∧ ∃ o, N.run (view s) (outs.filterMap given) = some (view t, o) := by
  induction is generalizing s outs with
  | nil =>
    cases h
    exact ⟨hs, [], rfl⟩
  | cons i is ih =>
    obtain ⟨s', out, outs', h₁, h₂, rfl⟩ := M.run_cons_eq_some.mp h
    obtain ⟨hs', o₁, hrun₁⟩ := hstep s i s' out hs h₁
    obtain ⟨ht, o₂, hrun₂⟩ := ih hs' h₂
    refine ⟨ht, o₁ ++ o₂, ?_⟩
    rw [List.filterMap_append]
    exact N.run_append_eq_some.mpr ⟨view s', o₁, o₂, hrun₁, hrun₂, rfl⟩

end Machine

end Udp2p
