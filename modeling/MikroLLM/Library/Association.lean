import Mathlib.Data.List.Nodup
import Mathlib.Data.Nat.Notation

/-!
# Finite maps

A map from keys to values as a list of pairs with different keys. The order of
the pairs has no meaning: a value is read with `get`, and every operation is
known by what `get` gives after it.
-/

namespace MikroLLM.Library

universe u v

/-- A map with finitely many keys. -/
structure Association (Key : Type u) (Value : Type v) where
  entries : List (Key × Value)
  nodup : (entries.map (·.1)).Nodup

namespace Association

variable {Key : Type u} {Value : Type v}

/-- The map without keys. -/
def empty : Association Key Value :=
  ⟨[], List.nodup_nil⟩

/-- The number of keys. -/
def size (map : Association Key Value) : ℕ :=
  map.entries.length

/-- The pairs that meet a condition. -/
def keep (map : Association Key Value) (wanted : Key × Value → Bool) : Association Key Value :=
  ⟨map.entries.filter wanted, map.nodup.sublist (List.filter_sublist.map _)⟩

theorem size_keep (map : Association Key Value) (wanted : Key × Value → Bool) :
    (map.keep wanted).size ≤ map.size :=
  List.length_filter_le _ _

variable [DecidableEq Key]

/-- The value of a key. -/
def get (map : Association Key Value) (key : Key) : Option Value :=
  (map.entries.find? (·.1 = key)).map (·.2)

/-- The map without a key. -/
def erase (map : Association Key Value) (key : Key) : Association Key Value :=
  map.keep (·.1 ≠ key)

/-- The map with a value for a key. -/
def put (map : Association Key Value) (key : Key) (value : Value) : Association Key Value where
  entries := (key, value) :: (map.erase key).entries
  nodup := by
    rw [List.map_cons, List.nodup_cons]
    refine ⟨?_, (map.erase key).nodup⟩
    intro inside
    rcases List.mem_map.mp inside with ⟨pair, kept, same⟩
    have differs := List.of_mem_filter kept
    simp only [ne_eq, decide_eq_true_eq] at differs
    exact differs same

section Reading

variable {map : Association Key Value} {key other : Key} {value : Value}

theorem get_eq_some_iff : map.get key = some value ↔ (key, value) ∈ map.entries := by
  constructor
  · intro found
    rcases Option.map_eq_some_iff.mp found with ⟨pair, isFirst, rfl⟩
    have same : pair.1 = key := by simpa using List.find?_some isFirst
    rw [← same]
    exact List.mem_of_find?_eq_some isFirst
  · intro inside
    rw [get]
    cases found : map.entries.find? (·.1 = key) with
    | none =>
        rw [List.find?_eq_none] at found
        exact absurd (found _ inside) (by simp)
    | some pair =>
        have same : pair.1 = key := by simpa using List.find?_some found
        have isPair : pair = (key, value) :=
          List.inj_on_of_nodup_map map.nodup (List.mem_of_find?_eq_some found) inside same
        rw [isPair]
        rfl

@[simp]
theorem get_empty : (empty : Association Key Value).get key = none := rfl

theorem get_keep (wanted : Key × Value → Bool) :
    (map.keep wanted).get key = (map.get key).filter fun value => wanted (key, value) := by
  ext value
  rw [Option.filter_eq_some_iff, get_eq_some_iff, get_eq_some_iff]
  exact List.mem_filter

@[simp]
theorem get_erase_self : (map.erase key).get key = none := by
  rw [erase, get_keep, Option.filter_eq_none_iff]
  simp

theorem get_erase_other (differs : other ≠ key) : (map.erase key).get other = map.get other := by
  rw [erase, get_keep]
  cases map.get other with
  | none => rfl
  | some value => simp [differs]

@[simp]
theorem get_put_self : (map.put key value).get key = some value := by
  rw [get_eq_some_iff]
  exact List.mem_cons_self

theorem get_put_other (differs : other ≠ key) :
    (map.put key value).get other = map.get other := by
  have erased : (map.erase key).get other = map.get other := get_erase_other differs
  rw [← erased]
  ext given
  rw [get_eq_some_iff, get_eq_some_iff]
  refine List.mem_cons.trans (or_iff_right ?_)
  intro same
  exact differs (congrArg Prod.fst same)

theorem size_put_le (map : Association Key Value) (key : Key) (value : Value) :
    (map.put key value).size ≤ map.size + 1 :=
  Nat.succ_le_succ (List.length_filter_le _ _)

/-- A new key. -/
theorem size_put (absent : map.get key = none) : (map.put key value).size = map.size + 1 := by
  have same : (map.erase key).entries = map.entries := by
    apply List.filter_eq_self.mpr
    rintro ⟨old, oldValue⟩ inside
    rw [decide_eq_true_eq]
    rintro rfl
    rw [get_eq_some_iff.mpr inside] at absent
    cases absent
  rw [size, size, put, List.length_cons, same]

/-- Pairs with different keys, put into the empty map. -/
theorem get_putAll_eq_some_iff {pairs : List (Key × Value)} (nodup : (pairs.map (·.1)).Nodup) :
    (pairs.foldl (fun map pair => map.put pair.1 pair.2) empty).get key = some value ↔
      (key, value) ∈ pairs := by
  have general (start : Association Key Value) :
      (pairs.foldl (fun map pair => map.put pair.1 pair.2) start).get key = some value ↔
        (key, value) ∈ pairs ∨ key ∉ pairs.map (·.1) ∧ start.get key = some value := by
    induction pairs generalizing start with
    | nil => simp
    | cons pair rest ih =>
        rw [List.map_cons, List.nodup_cons] at nodup
        rw [List.foldl_cons, ih nodup.2]
        by_cases same : key = pair.1
        · have fresh : key ∉ rest.map (·.1) := same ▸ nodup.1
          have absent : (key, value) ∉ rest := fun inside => fresh (List.mem_map_of_mem inside)
          have isPair : (key, value) = pair ↔ pair.2 = value := by
            rw [Prod.ext_iff]
            exact ⟨fun both => both.2.symm, fun isValue => ⟨same, isValue.symm⟩⟩
          rw [← same, get_put_self, List.mem_cons, isPair, Option.some_inj]
          exact ⟨fun known => Or.inl (Or.inl (known.resolve_left absent).2),
            fun known => Or.inr ⟨fresh, (known.resolve_right fun other =>
              other.1 (same ▸ List.mem_cons_self)).resolve_right absent⟩⟩
        · rw [get_put_other same]
          simp [same, Prod.ext_iff]
  rw [general]
  simp

end Reading

end Association

end MikroLLM.Library
