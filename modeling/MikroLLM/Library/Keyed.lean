import Mathlib.Data.List.Nodup
import Mathlib.Data.Nat.Notation

/-!
# Rows with a key

A table is a list of rows, one column of which is the primary key. An `UPDATE`
overwrites the row with the key, an `INSERT` appends. Both keep another column
without duplicates, when the row brings a value that is free.
-/

namespace MikroLLM.Library

universe u v w

variable {Row : Type u} {Key : Type v} {Value : Type w}

/-- The rows after the one with the key of `row` is overwritten. -/
def overwrite [DecidableEq Key] (key : Row → Key) (row : Row) (rows : List Row) : List Row :=
  rows.map fun old => if key old = key row then row else old

theorem mem_overwrite [DecidableEq Key] {key : Row → Key} {row last : Row} {rows : List Row}
    (listed : last ∈ overwrite key row rows) :
    (last = row ∧ ∃ old ∈ rows, key old = key row) ∨ (last ∈ rows ∧ key last ≠ key row) := by
  rcases List.mem_map.mp listed with ⟨old, inside, rfl⟩
  split
  · rename_i same
    exact Or.inl ⟨rfl, old, inside, same⟩
  · rename_i other
    exact Or.inr ⟨inside, other⟩

theorem overwrite_map_key [DecidableEq Key] (key : Row → Key) (row : Row) (rows : List Row) :
    (overwrite key row rows).map key = rows.map key := by
  rw [overwrite, List.map_map]
  apply List.map_congr_left
  intro old _
  simp only [Function.comp_apply]
  split
  · rename_i same
    exact same.symm
  · rfl

/-- The row that is found under the key of an overwritten row. -/
theorem find?_overwrite_self [DecidableEq Key] {key : Row → Key} {row : Row} {rows : List Row}
    (present : key row ∈ rows.map key) :
    (overwrite key row rows).find? (key · = key row) = some row := by
  induction rows with
  | nil => exact nomatch present
  | cons old rest ih =>
      rw [overwrite, List.map_cons]
      by_cases same : key old = key row
      · rw [if_pos same]
        exact List.find?_cons_of_pos (by simp)
      · rw [if_neg same, List.find?_cons_of_neg (by simpa using same)]
        apply ih
        rcases List.mem_cons.mp present with isOld | inside
        · exact absurd isOld.symm same
        · exact inside

/-- The row that is found under another key. -/
theorem find?_overwrite_other [DecidableEq Key] {key : Row → Key} {row : Row} {rows : List Row}
    {other : Key} (differs : other ≠ key row) :
    (overwrite key row rows).find? (key · = other) = rows.find? (key · = other) := by
  induction rows with
  | nil => rfl
  | cons old rest ih =>
      rw [overwrite, List.map_cons, List.find?_cons, List.find?_cons, ← overwrite, ih]
      by_cases same : key old = key row
      · simp [same, Ne.symm differs]
      · rw [if_neg same]

/-- What the keys have in common they have afterwards. -/
theorem overwrite_forall_key [DecidableEq Key] {key : Row → Key} {row : Row} {rows : List Row}
    {p : Key → Prop} (before : ∀ old ∈ rows, p (key old)) :
    ∀ last ∈ overwrite key row rows, p (key last) := by
  intro last listed
  rcases mem_overwrite listed with ⟨rfl, old, inside, same⟩ | ⟨inside, _⟩
  · rw [← same]
    exact before old inside
  · exact before last inside

/-- A column without duplicates keeps none, when no other row has the new value. -/
theorem overwrite_map_nodup [DecidableEq Key] {key : Row → Key} {column : Row → Value} {row : Row}
    {rows : List Row} (keys : (rows.map key).Nodup) (values : (rows.map column).Nodup)
    (free : ∀ old ∈ rows, key old ≠ key row → column old ≠ column row) :
    ((overwrite key row rows).map column).Nodup := by
  rw [List.Nodup, List.pairwise_map] at keys values
  rw [overwrite, List.Nodup, List.pairwise_map, List.pairwise_map]
  apply (keys.and values).imp_of_mem
  rintro first second firstListed secondListed ⟨keysDiffer, valuesDiffer⟩
  split
  · rename_i firstIsRow
    have secondOther : key second ≠ key row := by
      intro same
      exact keysDiffer (firstIsRow.trans same.symm)
    rw [if_neg secondOther]
    exact (free second secondListed secondOther).symm
  · rename_i firstOther
    split
    · exact free first firstListed firstOther
    · exact valuesDiffer

/-- An appended row with a free value. -/
theorem append_map_nodup {column : Row → Value} {row : Row} {rows : List Row}
    (values : (rows.map column).Nodup) (free : ∀ old ∈ rows, column old ≠ column row) :
    ((rows ++ [row]).map column).Nodup := by
  rw [List.map_append, List.map_singleton, List.nodup_append]
  refine ⟨values, List.nodup_singleton _, ?_⟩
  intro value listed last isLast
  rcases List.mem_map.mp listed with ⟨old, inside, rfl⟩
  rw [List.mem_singleton] at isLast
  rw [isLast]
  exact free old inside

theorem append_forall_key {key : Row → Key} {row : Row} {rows : List Row} {p : Key → Prop}
    (before : ∀ old ∈ rows, p (key old)) (last : p (key row)) :
    ∀ old ∈ rows ++ [row], p (key old) := by
  intro old listed
  rcases List.mem_append.mp listed with inside | isLast
  · exact before old inside
  · rw [List.mem_singleton] at isLast
    rw [isLast]
    exact last

/-- The keys of `AUTOINCREMENT` stay below the counter. -/
theorem append_key_lt {key : Row → ℕ} {row : Row} {rows : List Row} {next : ℕ}
    (below : ∀ old ∈ rows, key old < next) (isNext : key row = next) :
    ∀ old ∈ rows ++ [row], key old < next + 1 := by
  apply append_forall_key (p := (· < next + 1))
  · intro old inside
    have small := below old inside
    omega
  · omega

end MikroLLM.Library
