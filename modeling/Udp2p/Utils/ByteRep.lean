import Mathlib.Data.List.Basic
import Udp2p.Lib.Format

/-!
# `ByteRep`: messages as bytes

The trait every message type implements through `serde_json`. The serialiser is outside the
repository, so a `ByteRep α` is any pair of functions, and what a result relies on is one of

* `ByteRep.Lawful` — `from_bytes` undoes `as_bytes`,
* `ByteRep.Total` — `as_bytes` never fails.

`ByteRep.table` serialises the finitely many values of a table and is lawful; `ByteRep.reading`
writes every value and reads what it writes for the values of a list; `ByteRep.ofFormat` is both
lawful and total.
-/

namespace Udp2p

/-- A conversion of a type to bytes and back; both directions may fail. -/
structure ByteRep (α : Type) where
  asBytes : α → Option (List UInt8)
  fromBytes : List UInt8 → Option α

namespace ByteRep

variable {α : Type}

/-- Reading what was written gives back the value. -/
def Lawful (c : ByteRep α) : Prop :=
  ∀ a bytes, c.asBytes a = some bytes → c.fromBytes bytes = some a

/-- Writing never fails. -/
def Total (c : ByteRep α) : Prop := ∀ a, (c.asBytes a).isSome

theorem Total.exists_bytes {c : ByteRep α} (h : c.Total) (a : α) :
    ∃ bytes, c.asBytes a = some bytes :=
  Option.isSome_iff_exists.mp (h a)

/-- Serialise exactly the values listed, as the bytes listed beside them. -/
def table [DecidableEq α] (rows : List (α × List UInt8)) : ByteRep α where
  asBytes a := (rows.find? fun r => r.1 = a).map Prod.snd
  fromBytes bytes := (rows.find? fun r => r.2 = bytes).map Prod.fst

theorem table_fromBytes_of_mem [DecidableEq α] {rows : List (α × List UInt8)}
    (h : (rows.map Prod.snd).Nodup) {a : α} {bytes : List UInt8} (hmem : (a, bytes) ∈ rows) :
    (table rows).fromBytes bytes = some a := by
  induction rows with
  | nil => cases hmem
  | cons r rows ih =>
    rw [List.map_cons, List.nodup_cons] at h
    rcases List.mem_cons.mp hmem with rfl | hmem'
    · simp [table]
    · have hne : r.2 ≠ bytes := fun heq =>
        h.1 (heq ▸ List.mem_map.mpr ⟨(a, bytes), hmem', rfl⟩)
      simpa [table, List.find?_cons, hne] using ih h.2 hmem'

/-- A table with distinct byte strings reads back what it writes. -/
theorem table_lawful [DecidableEq α] {rows : List (α × List UInt8)}
    (h : (rows.map Prod.snd).Nodup) : (table rows).Lawful := by
  intro a bytes ha
  obtain ⟨⟨a', bytes'⟩, hfind, rfl⟩ := Option.map_eq_some_iff.mp ha
  have hkey : a' = a := by simpa using List.find?_some hfind
  exact hkey ▸ table_fromBytes_of_mem h (List.mem_of_find?_eq_some hfind)

/-- Write every value, and read the values listed. -/
def reading (write : α → List UInt8) (listed : List α) : ByteRep α where
  asBytes a := some (write a)
  fromBytes bytes := listed.find? fun a => write a = bytes

theorem reading_total (write : α → List UInt8) (listed : List α) : (reading write listed).Total :=
  fun _ => rfl

theorem reading_eq_some {write : α → List UInt8} {listed : List α} {bytes : List UInt8} {a : α}
    (h : (reading write listed).fromBytes bytes = some a) : a ∈ listed ∧ write a = bytes :=
  ⟨List.mem_of_find?_eq_some h, by simpa using List.find?_some h⟩

/-- The first value listed is read back. -/
theorem reading_head (write : α → List UInt8) (a : α) (listed : List α) :
    (reading write (a :: listed)).fromBytes (write a) = some a := by
  simp [reading]

/-- Values with distinct texts are read back. -/
theorem reading_of_nodup {write : α → List UInt8} {listed : List α}
    (h : (listed.map write).Nodup) {a : α} (ha : a ∈ listed) :
    (reading write listed).fromBytes (write a) = some a := by
  cases hfind : (reading write listed).fromBytes (write a) with
  | none =>
    have hnone := List.find?_eq_none.mp hfind a ha
    simp at hnone
  | some b =>
    obtain ⟨hb, heq⟩ := reading_eq_some hfind
    rw [List.inj_on_of_nodup_map h hb ha heq]

/-- Write and read in a format. -/
def ofFormat (f : Format UInt8 α) : ByteRep α where
  asBytes a := some (f.write a)
  fromBytes := f.parse

theorem ofFormat_total (f : Format UInt8 α) : (ofFormat f).Total :=
  fun _ => rfl

theorem ofFormat_lawful (f : Format UInt8 α) : (ofFormat f).Lawful := by
  intro a bytes h
  cases h
  exact f.parse_write a

end ByteRep

end Udp2p
