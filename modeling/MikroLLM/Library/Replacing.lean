import Mathlib.Data.List.Basic
import Mathlib.Data.List.Infix

/-!
# Replacing in a text

The matches of a text, from the left, give way to a token, and what stands between
them is kept. A part occurs in the result when it occurs in what is kept, or in the
token, or where one ends and the other begins.
-/

namespace MikroLLM.Library

universe u v

variable {Symbol : Type u} {Other : Type v}

section Matches

variable (begins : List Symbol → Bool) (size : ℕ)

/-- The text with the token for each match; first comes how much of the last match is left. -/
def replaceFrom (token : List Symbol) : ℕ → List Symbol → List Symbol
  | _, [] => []
  | skip + 1, _ :: rest => replaceFrom token skip rest
  | 0, symbol :: rest =>
      if begins (symbol :: rest) then token ++ replaceFrom token (size - 1) rest
      else symbol :: replaceFrom token 0 rest

/-- What stands before, between and behind the matches. -/
def keptFrom : ℕ → List Symbol → List (List Symbol)
  | _, [] => [[]]
  | skip + 1, _ :: rest => keptFrom skip rest
  | 0, symbol :: rest =>
      if begins (symbol :: rest) then [] :: keptFrom (size - 1) rest
      else (keptFrom 0 rest).modifyHead (symbol :: ·)

end Matches

/-- The part begins in one text and ends in the next. -/
def Meets (part before after : List Symbol) : Prop :=
  ∃ front back, front ≠ [] ∧ back ≠ [] ∧ part = front ++ back ∧ front <:+ before ∧ back <+: after

/-- The part lies across the edge of a token that joins the pieces. -/
def Straddles (part token : List Symbol) : List (List Symbol) → Prop
  | [] => False
  | [_] => False
  | piece :: next :: rest =>
      Straddles part token (next :: rest) ∨ Meets part token (token.intercalate (next :: rest)) ∨
        Meets part piece (token ++ token.intercalate (next :: rest))

section Joining

variable {part token before after : List Symbol}

theorem keptFrom_ne_nil (begins : List Symbol → Bool) (size skip : ℕ) (text : List Symbol) :
    keptFrom begins size skip text ≠ [] := by
  induction text generalizing skip with
  | nil => simp [keptFrom]
  | cons symbol rest ih =>
      cases skip with
      | succ skip => exact ih skip
      | zero =>
          rw [keptFrom]
          split
          · exact List.cons_ne_nil _ _
          · cases kept : keptFrom begins size 0 rest with
            | nil => exact absurd kept (ih 0)
            | cons piece pieces => exact List.cons_ne_nil _ _

/-- Replacing joins what is kept with the token. -/
theorem replaceFrom_eq (begins : List Symbol → Bool) (size skip : ℕ) (text : List Symbol) :
    replaceFrom begins size token skip text =
      token.intercalate (keptFrom begins size skip text) := by
  induction text generalizing skip with
  | nil => cases skip <;> rfl
  | cons symbol rest ih =>
      cases skip with
      | succ skip => exact ih skip
      | zero =>
          rw [replaceFrom, keptFrom]
          by_cases isMatch : begins (symbol :: rest) = true
          · rw [if_pos isMatch, if_pos isMatch, ih,
              List.intercalate_cons_of_ne_nil (keptFrom_ne_nil begins size (size - 1) rest),
              List.nil_append]
          · rw [if_neg isMatch, if_neg isMatch, ih]
            cases kept : keptFrom begins size 0 rest with
            | nil => exact absurd kept (keptFrom_ne_nil begins size 0 rest)
            | cons piece pieces =>
                cases pieces with
                | nil => simp
                | cons next more => simp [List.intercalate_cons_cons]

/-- Where a part of two texts in a row lies. -/
theorem infix_append_iff :
    part <:+: before ++ after ↔ part <:+: before ∨ part <:+: after ∨ Meets part before after := by
  constructor
  · rintro ⟨left, right, same⟩
    rcases List.append_eq_append_iff.mp same with ⟨more, isBefore, isRight⟩ | ⟨back, isPart, isAfter⟩
    · exact Or.inl ⟨left, more, isBefore.symm⟩
    · rcases List.append_eq_append_iff.mp isPart with ⟨front, isBefore, rfl⟩ | ⟨gap, isLeft, isBack⟩
      · rw [isBefore, isAfter]
        by_cases noFront : front = []
        · rw [noFront, List.nil_append]
          exact Or.inr (Or.inl ⟨[], right, rfl⟩)
        · by_cases noBack : back = []
          · rw [noBack, List.append_nil]
            exact Or.inl ⟨left, [], List.append_nil _⟩
          · exact Or.inr (Or.inr ⟨front, back, noFront, noBack, rfl, List.suffix_append _ _,
              List.prefix_append _ _⟩)
      · rw [isAfter, isBack]
        exact Or.inr (Or.inl ⟨gap, right, rfl⟩)
  · rintro (inBefore | inAfter | ⟨front, back, _, _, rfl, ⟨left, rfl⟩, ⟨right, rfl⟩⟩)
    · exact List.infix_append_of_infix_left inBefore
    · exact List.infix_append_of_infix_right inAfter
    · exact ⟨left, right, by simp⟩

/-- Where a part of joined pieces lies when it is not in the token. -/
theorem infix_intercalate_iff (outside : ¬part <:+: token) (pieces : List (List Symbol)) :
    part <:+: token.intercalate pieces ↔
      (∃ piece ∈ pieces, part <:+: piece) ∨ Straddles part token pieces := by
  induction pieces with
  | nil =>
      have notEmpty : part ≠ [] := by
        rintro rfl
        exact outside List.nil_infix
      simp [Straddles, notEmpty]
  | cons piece rest ih =>
      cases rest with
      | nil => simp [Straddles]
      | cons next more =>
          rw [List.intercalate_cons_cons, List.append_assoc, infix_append_iff, infix_append_iff, ih,
            Straddles]
          simp only [List.mem_cons, exists_eq_or_imp, outside, false_or, or_assoc]

theorem map_intercalate (f : Symbol → Other) (token : List Symbol) (pieces : List (List Symbol)) :
    (token.intercalate pieces).map f = (token.map f).intercalate (pieces.map (List.map f)) := by
  induction pieces with
  | nil => rfl
  | cons piece rest ih =>
      cases rest with
      | nil => simp
      | cons next more =>
          rw [List.intercalate_cons_cons, List.map_append, List.map_append, ih]
          simp only [List.map_cons, List.intercalate_cons_cons]

end Joining

end MikroLLM.Library
