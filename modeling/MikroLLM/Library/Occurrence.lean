import Mathlib.Data.List.Basic
import Mathlib.Data.List.Infix

/-!
# Occurrences in a text

Where a part first occurs in a text. What is added behind the text does not change
this, and what is put in front of it takes the place of every occurrence when the
part occurs there.
-/

namespace MikroLLM.Library

universe u

variable {Symbol : Type u} [DecidableEq Symbol] {part text : List Symbol} {position : ℕ}

/-- The first position where the part occurs. -/
def firstAt (part text : List Symbol) : Option ℕ :=
  text.tails.findIdx? fun rest => part.isPrefixOf rest

theorem firstAt_eq_some_iff :
    firstAt part text = some position ↔
      part <+: text.drop position ∧ ∀ earlier < position, ¬part <+: text.drop earlier := by
  rw [firstAt, List.findIdx?_eq_some_iff_getElem]
  simp only [List.length_tails, Nat.lt_succ_iff, List.getElem_tails, List.isPrefixOf_iff_prefix,
    exists_prop]
  constructor
  · exact fun found => found.2
  · rintro ⟨begins, first⟩
    refine ⟨?_, begins, first⟩
    -- Behind the end the text is what it is at the end.
    by_contra beyond
    rw [List.drop_eq_nil_of_le (by omega)] at begins
    apply first text.length (by omega)
    rw [List.drop_length]
    exact begins

theorem firstAt_le (found : firstAt part text = some position) : position ≤ text.length := by
  rw [firstAt, List.findIdx?_eq_some_iff_getElem] at found
  rcases found with ⟨within, _⟩
  rw [List.length_tails] at within
  exact Nat.lt_succ_iff.mp within

/-- What is added behind does not change where a part first occurs. -/
theorem firstAt_append (found : firstAt part text = some position) (more : List Symbol) :
    firstAt part (text ++ more) = some position := by
  have within := firstAt_le found
  rw [firstAt_eq_some_iff] at found ⊢
  rcases found with ⟨begins, first⟩
  have longEnough : position + part.length ≤ text.length := by
    have shorter := begins.length_le
    rw [List.length_drop] at shorter
    omega
  constructor
  · rw [List.drop_append_of_le_length within]
    exact begins.trans (List.prefix_append _ _)
  · intro earlier before begun
    apply first earlier before
    rw [List.drop_append_of_le_length (by omega)] at begun
    apply List.prefix_of_prefix_length_le begun (List.prefix_append _ _)
    rw [List.length_drop]
    omega

end MikroLLM.Library
