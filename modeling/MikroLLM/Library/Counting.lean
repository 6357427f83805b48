import Mathlib.Data.Nat.Count

/-!
# Counting below a bound

How `Nat.count` changes when a predicate changes at one number. The counts are
of identifiers below the next free one, so a count also has to follow the bound.
-/

namespace MikroLLM.Library

universe u

section Count

variable {bound : ℕ} {before after : ℕ → Prop} [DecidablePred before] [DecidablePred after]

theorem count_congr (agree : ∀ k < bound, before k ↔ after k) :
    Nat.count before bound = Nat.count after bound := by
  induction bound with
  | zero => simp
  | succ bound ih =>
      rw [Nat.count_succ, Nat.count_succ, ih fun k below => agree k (by omega)]
      simp [agree bound (by omega)]

theorem count_le_of_subset {bound' : ℕ} (sub : ∀ k < bound', after k → k < bound ∧ before k) :
    Nat.count after bound' ≤ Nat.count before bound := by
  rw [Nat.count_eq_card_filter_range, Nat.count_eq_card_filter_range]
  apply Finset.card_le_card
  intro k listed
  rw [Finset.mem_filter, Finset.mem_range] at listed
  rw [Finset.mem_filter, Finset.mem_range]
  exact sub k listed.1 listed.2

/-- A predicate that becomes true at most at one number gains at most one. -/
theorem count_le_succ_of_subset {bound' : ℕ} (new : ℕ)
    (sub : ∀ k < bound', after k → (k < bound ∧ before k) ∨ k = new) :
    Nat.count after bound' ≤ Nat.count before bound + 1 := by
  rw [Nat.count_eq_card_filter_range, Nat.count_eq_card_filter_range]
  refine (Finset.card_le_card ?_).trans (Finset.card_insert_le new _)
  intro k listed
  rw [Finset.mem_filter, Finset.mem_range] at listed
  rw [Finset.mem_insert, Finset.mem_filter, Finset.mem_range]
  exact (sub k listed.1 listed.2).symm

/-- What one of two conditions covers is counted by one of them. -/
theorem count_le_add {first second : ℕ → Prop} [DecidablePred first] [DecidablePred second]
    (cover : ∀ k < bound, before k → first k ∨ second k) :
    Nat.count before bound ≤ Nat.count first bound + Nat.count second bound := by
  induction bound with
  | zero => simp
  | succ bound ih =>
      have rest := ih fun k below => cover k (by omega)
      have last := cover bound (by omega)
      rw [Nat.count_succ, Nat.count_succ, Nat.count_succ]
      split_ifs <;> first | omega | simp_all

/-- A predicate that becomes true at exactly one number gains one. -/
theorem count_insert {new : ℕ} (below : new < bound) (absent : ¬before new) (present : after new)
    (agree : ∀ k, k ≠ new → (before k ↔ after k)) :
    Nat.count after bound = Nat.count before bound + 1 := by
  induction bound with
  | zero => omega
  | succ bound ih =>
      rw [Nat.count_succ, Nat.count_succ]
      rcases Nat.lt_succ_iff_lt_or_eq.mp below with earlier | rfl
      · rw [ih earlier]
        have here := agree bound (by omega)
        simp only [here]
        omega
      · rw [count_congr fun k small => agree k (by omega)]
        simp [absent, present]

/-- A predicate that becomes false at exactly one number loses one. -/
theorem count_remove {old : ℕ} (below : old < bound) (present : before old) (absent : ¬after old)
    (agree : ∀ k, k ≠ old → (before k ↔ after k)) :
    Nat.count before bound = Nat.count after bound + 1 :=
  count_insert below absent present fun k other => (agree k other).symm

end Count

/-- How many of the first components have a property. -/
def countOf {Value : Type u} (property : Value → Bool) (component : ℕ → Value) (bound : ℕ) : ℕ :=
  Nat.count (fun k => property (component k) = true) bound

section Update

variable {Value : Type u} {property : Value → Bool} {component : ℕ → Value} {value : Value}
  {key bound : ℕ}

theorem countOf_update_le (kept : property value = true → property (component key) = true) :
    countOf property (Function.update component key value) bound ≤
      countOf property component bound := by
  apply Nat.count_mono_left
  intro k _ holds
  rcases eq_or_ne k key with rfl | other
  · exact kept (by simpa using holds)
  · simpa [other] using holds

theorem countOf_update_le_succ :
    countOf property (Function.update component key value) bound ≤
      countOf property component bound + 1 := by
  apply count_le_succ_of_subset key
  intro k below holds
  by_cases same : k = key
  · exact Or.inr same
  · exact Or.inl ⟨below, by simpa [same] using holds⟩

/-- One component loses the property. -/
theorem countOf_update_leave (below : key < bound) (before : property (component key) = true)
    (after : property value = false) :
    countOf property component bound =
      countOf property (Function.update component key value) bound + 1 := by
  apply count_remove below before
  · simp [after]
  · intro k other
    simp [other]

/-- How an update changes a count. -/
theorem countOf_update (property : Value → Bool) (component : ℕ → Value) (value : Value)
    (below : key < bound) :
    countOf property (Function.update component key value) bound +
        (if property (component key) then 1 else 0) =
      countOf property component bound + if property value then 1 else 0 := by
  induction bound with
  | zero => omega
  | succ bound ih =>
      simp only [countOf, Nat.count_succ] at ih ⊢
      rcases Nat.lt_succ_iff_lt_or_eq.mp below with earlier | rfl
      · have other : bound ≠ key := by omega
        have step := ih earlier
        simp only [Function.update_of_ne other]
        omega
      · have same : Nat.count (fun k => property (Function.update component key value k) = true) key =
            Nat.count (fun k => property (component k) = true) key := by
          apply count_congr
          intro k small
          simp [Nat.ne_of_lt small]
        simp only [same, Function.update_self]
        omega

theorem countOf_update_of_le (above : bound ≤ key) :
    countOf property (Function.update component key value) bound =
      countOf property component bound := by
  apply count_congr
  intro k small
  have other : k ≠ key := by omega
  simp [other]

theorem countOf_zero : countOf property component 0 = 0 :=
  Nat.count_zero _

theorem countOf_succ :
    countOf property component (bound + 1) =
      countOf property component bound + if property (component bound) then 1 else 0 := by
  rw [countOf, countOf, Nat.count_succ]

theorem countOf_pos (below : key < bound) (holds : property (component key) = true) :
    0 < countOf property component bound := by
  rw [countOf, Nat.count_eq_card_filter_range, Finset.card_pos]
  exact ⟨key, by simp [below, holds]⟩

end Update

end MikroLLM.Library
