import Mathlib.Data.List.Basic
import Mathlib.Tactic.ByContra
import Udp2p.Lib.Collections

/-!
# Texts that can be read from the front

A `Format` writes a value as a text and reads it back from the front of any longer text. This law is
part of the format, so that formats put together keep it, and a text can be read piece by piece with
no end marked but by the pieces themselves.

* `parse_write` — what is written is read back, all of it.
* `upTo`, `parseList_joined` — a text that ends at a stop, and a list of such texts.
* `many`, `separated` — values one after another, or with a separator between, up to a stop.
* `prefix_of_read_after` — what is read after a literal starts with it.
-/

namespace Udp2p

/-- A writer, and a reader of the front of a text. -/
structure Format (σ α : Type) where
  write : α → List σ
  read : List σ → Option (α × List σ)
  read_write : ∀ a rest, read (write a ++ rest) = some (a, rest)

namespace Format

variable {σ α β : Type}

/-- Read a whole text. -/
def parse (f : Format σ α) (text : List σ) : Option α :=
  match f.read text with
  | some (a, []) => some a
  | _ => none

theorem parse_write (f : Format σ α) (a : α) : f.parse (f.write a) = some a := by
  have h := f.read_write a []
  rw [List.append_nil] at h
  rw [parse, h]

/-! ## Formats put together -/

/-- Two values in order. -/
def pair (f : Format σ α) (g : Format σ β) : Format σ (α × β) where
  write r := f.write r.1 ++ g.write r.2
  read text := do
    let (a, text) ← f.read text
    let (b, text) ← g.read text
    return ((a, b), text)
  read_write r rest := by
    rw [List.append_assoc, f.read_write]
    show (g.read (g.write r.2 ++ rest)).bind _ = _
    rw [g.read_write]
    rfl

/-- A value written as another one. -/
def convert (f : Format σ α) (build : α → Option β) (of : β → α)
    (h : ∀ b, build (of b) = some b) : Format σ β where
  write b := f.write (of b)
  read text := do
    let (a, text) ← f.read text
    let b ← build a
    return (b, text)
  read_write b rest := by
    rw [f.read_write]
    show (build (of b)).bind _ = _
    rw [h]
    rfl

/-- One of two values; no text of the second kind is read as one of the first. -/
def orElse (f : Format σ α) (g : Format σ β) (h : ∀ b rest, f.read (g.write b ++ rest) = none) :
    Format σ (α ⊕ β) where
  write
    | .inl a => f.write a
    | .inr b => g.write b
  read text :=
    match f.read text with
    | some (a, text) => some (.inl a, text)
    | none => (g.read text).map fun r => (.inr r.1, r.2)
  read_write r rest := by
    cases r with
    | inl a => simp only [f.read_write]
    | inr b => simp only [h, g.read_write, Option.map_some]

/-! ## Literals -/

variable [DecidableEq σ]

/-- A literal, and a value after it. -/
def after (l : List σ) (f : Format σ α) : Format σ α where
  write a := l ++ f.write a
  read text := if l <+: text then f.read (text.drop l.length) else none
  read_write a rest := by
    rw [List.append_assoc, if_pos (List.prefix_append _ _), List.drop_left, f.read_write]

/-- A value, and a literal after it. -/
def before (f : Format σ α) (l : List σ) : Format σ α where
  write a := f.write a ++ l
  read text := do
    let (a, text) ← f.read text
    if l <+: text then return (a, text.drop l.length) else none
  read_write a rest := by
    rw [List.append_assoc, f.read_write]
    show (if l <+: l ++ rest then some (a, (l ++ rest).drop l.length) else none) = _
    rw [if_pos (List.prefix_append _ _), List.drop_left]

/-- The literal alone. -/
def lit (l : List σ) : Format σ Unit where
  write _ := l
  read text := if l <+: text then some ((), text.drop l.length) else none
  read_write _ rest := by
    rw [if_pos (List.prefix_append _ _), List.drop_left]

theorem prefix_of_read_after {l text : List σ} {f : Format σ α} {r : α × List σ}
    (h : (after l f).read text = some r) : l <+: text := by
  by_contra hnot
  have hnone : (after l f).read text = none := if_neg hnot
  rw [hnone] at h
  cases h

/-! ## Texts up to a stop -/

/-- A text without the symbol `stop`, which is written after it. -/
def upTo (stop : σ) (write : α → List σ) (parse : List σ → Option α)
    (hstop : ∀ a, stop ∉ write a) (hparse : ∀ a, parse (write a) = some a) : Format σ α where
  write a := write a ++ [stop]
  read text :=
    if stop ∈ text then
      (parse (text.takeWhile (· ≠ stop))).map fun a => (a, (text.dropWhile (· ≠ stop)).tail)
    else none
  read_write a rest := by
    have hall : ∀ c ∈ write a, decide (c ≠ stop) = true := by
      rintro c hc
      exact decide_eq_true fun heq => hstop a (heq ▸ hc)
    have hmem : stop ∈ write a ++ [stop] ++ rest := by simp
    rw [if_pos hmem, List.append_assoc, List.takeWhile_append_of_pos hall,
      List.dropWhile_append_of_pos hall]
    simp [hparse]

/-- The texts of a list, with the symbol `sep` between them. -/
def joined (sep : σ) (write : α → List σ) (l : List α) : List σ := [sep].intercalate (l.map write)

def parseList (sep : σ) (parse : List σ → Option α) (text : List σ) : Option (List α) :=
  if text = [] then some [] else (text.splitOn sep).mapM parse

/-- Pieces that are not empty and do not contain the separator are found again. -/
theorem parseList_joined {sep : σ} {write : α → List σ} {parse : List σ → Option α}
    (hsep : ∀ a, sep ∉ write a) (hne : ∀ a, write a ≠ []) (hparse : ∀ a, parse (write a) = some a)
    (l : List α) : parseList sep parse (joined sep write l) = some l := by
  cases l with
  | nil => rfl
  | cons a l =>
    have hsplit : (joined sep write (a :: l)).splitOn sep = (a :: l).map write := by
      apply List.splitOn_intercalate
      · intro text htext
        obtain ⟨b, -, rfl⟩ := List.mem_map.mp htext
        exact hsep b
      · exact List.cons_ne_nil _ _
    have hnil : joined sep write (a :: l) ≠ [] := by
      intro h
      rw [h, List.map_cons] at hsplit
      exact hne a (List.cons.inj hsplit).1.symm
    rw [parseList, if_neg hnil, hsplit]
    apply mapM_of_inverse (f := fun a => some (write a)) ?_ List.mapM_pure
    rintro a text ⟨rfl⟩
    exact hparse a

omit [DecidableEq σ] in
/-- A symbol that is not the separator nor in a piece is not in the text. -/
theorem notMem_joined {sep c : σ} {write : α → List σ} (hsep : c ≠ sep)
    (hpiece : ∀ a, c ∉ write a) (l : List α) : c ∉ joined sep write l := by
  induction l with
  | nil => exact List.not_mem_nil
  | cons a l ih =>
    cases l with
    | nil =>
      show c ∉ [sep].intercalate [write a]
      rw [List.intercalate_singleton]
      exact hpiece a
    | cons b l =>
      show c ∉ [sep].intercalate (write a :: write b :: l.map write)
      rw [List.intercalate_cons_cons]
      simp only [List.mem_append, List.mem_singleton, not_or]
      exact ⟨⟨hpiece a, hsep⟩, ih⟩

/-! ## Values one after another -/

/-- Read values until the symbol `stop`, at most `fuel` of them. -/
def readMany (f : Format σ α) (stop : σ) : Nat → List σ → Option (List α × List σ)
  | 0, _ => none
  | fuel + 1, text =>
    if text.head? = some stop then some ([], text.tail)
    else do
      let (a, text) ← f.read text
      let (l, text) ← readMany f stop fuel text
      return (a :: l, text)

/-- Values that do not start with the symbol `stop`, which is written after them. -/
def many (f : Format σ α) (stop : σ) (hstop : ∀ a rest, (f.write a ++ rest).head? ≠ some stop) :
    Format σ (List α) where
  write l := l.flatMap f.write ++ [stop]
  read text := readMany f stop text.length text
  read_write l rest := by
    -- there is a symbol for each value, and one more
    have hread : ∀ (l : List α) (fuel : Nat), l.length < fuel →
        readMany f stop fuel (l.flatMap f.write ++ [stop] ++ rest) = some (l, rest) := by
      intro l
      induction l with
      | nil =>
        intro fuel hfuel
        cases fuel with
        | zero => cases hfuel
        | succ fuel => simp [readMany]
      | cons a l ih =>
        intro fuel hfuel
        cases fuel with
        | zero => cases hfuel
        | succ fuel =>
          rw [List.flatMap_cons, List.append_assoc, List.append_assoc, ← List.append_assoc _ [stop],
            readMany, if_neg (hstop a _), f.read_write]
          show (readMany f stop fuel _).bind _ = _
          rw [ih fuel (Nat.lt_of_succ_lt_succ hfuel)]
          rfl
    have hlength : ∀ l : List α, l.length ≤ (l.flatMap f.write).length := by
      intro l
      induction l with
      | nil => exact Nat.zero_le _
      | cons a l ih =>
        have hne : f.write a ≠ [] := by
          intro hnil
          apply hstop a [stop]
          rw [hnil]
          rfl
        have hpos := List.length_pos_iff.mpr hne
        rw [List.flatMap_cons, List.length_append, List.length_cons]
        omega
    apply hread
    have := hlength l
    simp only [List.length_append, List.length_singleton]
    omega

/-- The values after the first one, each after the symbol `sep`. -/
def following (f : Format σ α) (sep stop : σ) (hsep : sep ≠ stop) : Format σ (List α) :=
  many (after [sep] f) stop fun _ _ h => hsep (Option.some.inj h)

/-- Values with the symbol `sep` between them, and `stop` after the last one. -/
def separated (f : Format σ α) (sep stop : σ) (hsep : sep ≠ stop)
    (hstop : ∀ a text, (f.write a ++ text).head? ≠ some stop) : Format σ (List α) :=
  ((lit [stop]).orElse (f.pair (f.following sep stop hsep)) fun r text => if_neg fun h => by
    obtain ⟨text', htext⟩ := h
    rw [pair, List.append_assoc] at htext
    apply hstop r.1 ((f.following sep stop hsep).write r.2 ++ text)
    rw [← htext]
    rfl).convert
    (fun
      | .inl () => some []
      | .inr (a, l) => some (a :: l))
    (fun
      | [] => .inl ()
      | a :: l => .inr (a, l))
    fun l => by cases l <;> rfl

theorem write_separated {f : Format σ α} {sep stop : σ} {hsep : sep ≠ stop}
    {hstop : ∀ a text, (f.write a ++ text).head? ≠ some stop} (l : List α) :
    (f.separated sep stop hsep hstop).write l = joined sep f.write l ++ [stop] := by
  have h : ∀ (a : α) (l : List α), joined sep f.write (a :: l) ++ [stop] =
      f.write a ++ (f.following sep stop hsep).write l := by
    intro a l
    induction l generalizing a with
    | nil => simp [joined, List.intercalate_singleton, following, many]
    | cons b l ih =>
      have hb := ih b
      simp only [joined, List.map_cons, following, many, List.flatMap_cons] at hb ⊢
      rw [List.intercalate_cons_cons, List.append_assoc, List.append_assoc, hb]
      simp [after]
  cases l with
  | nil => rfl
  | cons a l => exact (h a l).symm

end Format

end Udp2p
