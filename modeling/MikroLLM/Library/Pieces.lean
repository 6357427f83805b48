import Mathlib.Algebra.BigOperators.Group.List.Basic
import Mathlib.Algebra.Order.BigOperators.Group.List
import Mathlib.Algebra.Order.Ring.Nat
import Mathlib.Data.List.Basic

/-!
# Pieces of lists

Two lists that are put together piece by piece are equal only when their pieces
are, if the pieces of one are not shorter than those of the other, or are some of
those of the other.
-/

namespace MikroLLM.Library

universe u v

variable {Item : Type u} {Symbol : Type v}

theorem length_flatMap_le {short long : Item → List Symbol} {items : List Item}
    (shorter : ∀ item ∈ items, (short item).length ≤ (long item).length) :
    (items.flatMap short).length ≤ (items.flatMap long).length := by
  induction items with
  | nil => rfl
  | cons item rest ih =>
      rw [List.forall_mem_cons] at shorter
      have tail := ih shorter.2
      rw [List.flatMap_cons, List.flatMap_cons, List.length_append, List.length_append]
      omega

/-- Pieces that are not shorter make the same list only when they are the same. -/
theorem flatMap_eq_iff {short long : Item → List Symbol} {items : List Item}
    (shorter : ∀ item ∈ items, (short item).length ≤ (long item).length) :
    items.flatMap long = items.flatMap short ↔ ∀ item ∈ items, long item = short item := by
  constructor
  · intro same
    induction items with
    | nil => simp
    | cons item rest ih =>
        rw [List.forall_mem_cons] at shorter ⊢
        rw [List.flatMap_cons, List.flatMap_cons] at same
        have lengths := congrArg List.length same
        rw [List.length_append, List.length_append] at lengths
        have tail := length_flatMap_le shorter.2
        rcases List.append_inj same (by omega) with ⟨sameItem, sameRest⟩
        exact ⟨sameItem, ih shorter.2 sameRest⟩
  · intro same
    exact List.flatMap_congr same

/-- Longer pieces are found in the list of the shorter ones only when they are the same. -/
theorem sublist_flatMap_iff {short long : Item → List Symbol} {items : List Item}
    (shorter : ∀ item ∈ items, (short item).length ≤ (long item).length) :
    (items.flatMap long).Sublist (items.flatMap short) ↔
      ∀ item ∈ items, long item = short item := by
  rw [← flatMap_eq_iff shorter]
  constructor
  · intro within
    exact within.eq_of_length_le (length_flatMap_le shorter)
  · intro same
    rw [same]

/-- Items that are replaced by lists of items, each of which begins with one item, are as they were
only when each list is its item. -/
theorem take_flatMap_eq_iff {block : Item → List Item} {items : List Item} {limit : ℕ}
    (starts : ∀ item ∈ items, ∃ first rest, block item = first :: rest ∧ (first = item → rest = []))
    (short : items.length ≤ limit) :
    (items.flatMap block).take limit = items ↔ ∀ item ∈ items, block item = [item] := by
  induction items generalizing limit with
  | nil => simp
  | cons item items ih =>
      rw [List.forall_mem_cons] at starts ⊢
      rcases starts.1 with ⟨first, rest, begins, alone⟩
      obtain ⟨limit, rfl⟩ : ∃ less, limit = less + 1 :=
        Nat.exists_eq_add_one_of_ne_zero (by rw [List.length_cons] at short; omega)
      have fits : items.length ≤ limit := Nat.le_of_succ_le_succ short
      rw [List.flatMap_cons, begins, List.cons_append, List.take_succ_cons, List.cons.injEq]
      constructor
      · rintro ⟨rfl, same⟩
        rw [alone rfl, List.nil_append] at same
        exact ⟨by rw [alone rfl], (ih starts.2 fits).mp same⟩
      · rintro ⟨isItem, others⟩
        cases isItem
        exact ⟨rfl, (ih starts.2 fits).mpr others⟩

/-- Some of the items weigh as much as all of them only when they are all of them. -/
theorem eq_of_sublist_of_sum_eq (weight : Item → ℕ) {left right : List Item}
    (within : left.Sublist right) (heavy : ∀ item ∈ right, 0 < weight item)
    (same : (left.map weight).sum = (right.map weight).sum) : left = right := by
  induction within with
  | slnil => rfl
  | cons item within ih =>
      have upTo := (within.map weight).sum_le_sum fun _ _ => Nat.zero_le _
      have positive := heavy item List.mem_cons_self
      rw [List.map_cons, List.sum_cons] at same
      omega
  | cons_cons item within ih =>
      rw [List.map_cons, List.map_cons, List.sum_cons, List.sum_cons] at same
      rw [ih (fun other inside => heavy other (List.mem_cons_of_mem _ inside)) (by omega)]

section Joining

variable {left right pieces : List (List Symbol)}

theorem length_intercalate (separator : List Symbol) (notEmpty : pieces ≠ []) :
    (separator.intercalate pieces).length + separator.length =
      (pieces.map fun piece => piece.length + separator.length).sum := by
  induction pieces with
  | nil => exact absurd rfl notEmpty
  | cons piece rest ih =>
      cases rest with
      | nil => simp [List.intercalate]
      | cons next more =>
          have tail := ih (List.cons_ne_nil next more)
          rw [List.intercalate_cons_of_ne_nil (List.cons_ne_nil next more), List.map_cons,
            List.sum_cons, ← tail, List.length_append, List.length_append]
          omega

variable {separator : List Symbol}

/-- Some of the pieces, joined, make the same list only when they are all of them. -/
theorem intercalate_eq_iff (within : left.Sublist right) (full : ∀ piece ∈ right, piece ≠ []) :
    separator.intercalate left = separator.intercalate right ↔ left = right := by
  constructor
  · intro same
    apply eq_of_sublist_of_sum_eq (fun piece => piece.length + separator.length) within
    · intro piece inside
      have notEmpty := List.length_pos_of_ne_nil (full piece inside)
      omega
    · cases right with
      | nil => rw [List.sublist_nil.mp within]
      | cons first rest =>
          have joined := length_intercalate separator (List.cons_ne_nil first rest)
          cases left with
          | nil =>
              have notEmpty := List.length_pos_of_ne_nil (full first List.mem_cons_self)
              rw [← same, List.map_cons, List.sum_cons] at joined
              simp only [List.intercalate_nil, List.length_nil] at joined
              omega
          | cons piece pieces =>
              rw [← joined, ← same, length_intercalate separator (List.cons_ne_nil piece pieces)]
  · intro same
    rw [same]

end Joining

end MikroLLM.Library
