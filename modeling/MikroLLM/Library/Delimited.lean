import Mathlib.Algebra.Order.Group.Nat
import Mathlib.Data.List.DropRight
import Mathlib.Data.List.Infix

/-!
# Delimited texts

A text is cut at a separator and its pieces lose the blanks around them. They can be
joined again by the separator with blanks around it: what is no blank is kept.
-/

namespace MikroLLM.Library

universe u

variable {Symbol : Type u} {blank : Symbol → Bool} {symbol : Symbol} {text front back : List Symbol}

/-- A text without the blanks at its ends. -/
def trim (blank : Symbol → Bool) (text : List Symbol) : List Symbol :=
  (text.dropWhile blank).rdropWhile blank

theorem rdropWhile_append_of_all (blanks : ∀ symbol ∈ back, blank symbol = true) :
    (text ++ back).rdropWhile blank = text.rdropWhile blank := by
  induction back using List.reverseRecOn with
  | nil => rw [List.append_nil]
  | append_singleton back symbol ih =>
      rw [List.forall_mem_append, List.forall_mem_singleton] at blanks
      rw [← List.append_assoc, List.rdropWhile_concat_pos _ _ _ blanks.2, ih blanks.1]

theorem dropWhile_append_of_all (blanks : ∀ symbol ∈ front, blank symbol = true) :
    (front ++ text).dropWhile blank = text.dropWhile blank := by
  induction front with
  | nil => rfl
  | cons symbol front ih =>
      rw [List.forall_mem_cons] at blanks
      rw [List.cons_append, List.dropWhile_cons_of_pos blanks.1, ih blanks.2]

/-- Blanks in front do not count. -/
theorem trim_append_left (blanks : ∀ symbol ∈ front, blank symbol = true) :
    trim blank (front ++ text) = trim blank text := by
  rw [trim, trim, dropWhile_append_of_all blanks]

/-- Nor do blanks behind. -/
theorem trim_append_right (blanks : ∀ symbol ∈ back, blank symbol = true) :
    trim blank (text ++ back) = trim blank text := by
  rw [trim, trim, List.dropWhile_append]
  split
  · rename_i gone
    rw [List.isEmpty_iff] at gone
    have allGone : back.dropWhile blank = [] := List.dropWhile_eq_nil_iff.mpr blanks
    rw [gone, allGone]
  · exact rdropWhile_append_of_all blanks

/-- The blanks that a text loses. -/
theorem trim_spec (blank : Symbol → Bool) (text : List Symbol) :
    ∃ front back, text = front ++ trim blank text ++ back ∧
      (∀ symbol ∈ front, blank symbol = true) ∧ ∀ symbol ∈ back, blank symbol = true := by
  refine ⟨text.takeWhile blank, (text.dropWhile blank).rtakeWhile blank, ?_, ?_, ?_⟩
  · rw [trim, List.append_assoc, List.rdropWhile_append_rtakeWhile,
      List.takeWhile_append_dropWhile]
  · exact fun symbol inside => List.mem_takeWhile_imp inside
  · exact fun symbol inside => List.mem_rtakeWhile_imp inside

theorem trim_trim (blank : Symbol → Bool) (text : List Symbol) :
    trim blank (trim blank text) = trim blank text := by
  rcases trim_spec blank text with ⟨front, back, same, blankFront, blankBack⟩
  conv_rhs => rw [same, trim_append_right blankBack, trim_append_left blankFront]

/-- A text that begins with no blank still begins so. -/
theorem trim_cons (solid : blank symbol = false) (text : List Symbol) :
    ∃ rest, trim blank (symbol :: text) = symbol :: rest := by
  have kept : (symbol :: text).dropWhile blank = symbol :: text :=
    List.dropWhile_cons_of_neg (by simp [solid])
  have within := List.rdropWhile_prefix blank (symbol :: text)
  rw [trim, kept]
  cases left : (symbol :: text).rdropWhile blank with
  | nil =>
      have allBlank := List.rdropWhile_eq_nil_iff.mp left symbol List.mem_cons_self
      exact absurd allBlank (by simp [solid])
  | cons first rest =>
      rw [left] at within
      exact ⟨rest, by rw [(List.cons_prefix_cons.mp within).1]⟩

theorem mem_of_mem_trim (inside : symbol ∈ trim blank text) : symbol ∈ text := by
  rcases trim_spec blank text with ⟨front, back, same, _, _⟩
  rw [same]
  exact List.mem_append_left _ (List.mem_append_right _ inside)

theorem length_trim_le (blank : Symbol → Bool) (text : List Symbol) :
    (trim blank text).length ≤ text.length := by
  rcases trim_spec blank text with ⟨front, back, same, _, _⟩
  have lengths := congrArg List.length same
  simp only [List.length_append] at lengths
  omega

/-- A text of the length of what it loses is not changed. -/
theorem trim_eq_of_length (long : text.length ≤ (trim blank text).length) :
    trim blank text = text := by
  rcases trim_spec blank text with ⟨front, back, same, _, _⟩
  have lengths := congrArg List.length same
  simp only [List.length_append] at lengths
  have noFront : front = [] := List.length_eq_zero_iff.mp (by omega)
  have noBack : back = [] := List.length_eq_zero_iff.mp (by omega)
  rw [noFront, noBack, List.nil_append, List.append_nil] at same
  exact same.symm

theorem filter_blanks (blanks : ∀ symbol ∈ text, blank symbol = true) :
    text.filter (!blank ·) = [] := by
  rw [List.filter_eq_nil_iff]
  intro symbol inside
  simp [blanks symbol inside]

/-- Only blanks are lost. -/
theorem filter_trim (blank : Symbol → Bool) (text : List Symbol) :
    (trim blank text).filter (!blank ·) = text.filter (!blank ·) := by
  rcases trim_spec blank text with ⟨front, back, same, blankFront, blankBack⟩
  conv_rhs =>
    rw [same, List.filter_append, List.filter_append, filter_blanks blankFront,
      filter_blanks blankBack, List.nil_append, List.append_nil]

/-- Behind a prefix of a text without blanks at its ends there is something to be seen. -/
theorem eq_of_prefix_of_filter {whole : List Symbol} (starts : text <+: whole)
    (trimmed : trim blank whole = whole) (same : whole.filter (!blank ·) = text.filter (!blank ·)) :
    text = whole := by
  rcases starts with ⟨tail, rfl⟩
  rw [List.filter_append, List.append_right_eq_self, List.filter_eq_nil_iff] at same
  have blanks : ∀ symbol ∈ tail, blank symbol = true := by
    intro symbol inside
    simpa using same symbol inside
  have short := length_trim_le blank text
  have lengths := congrArg List.length trimmed
  rw [trim_append_right blanks, List.length_append] at lengths
  have noTail : tail = [] := List.length_eq_zero_iff.mp (by omega)
  rw [noTail, List.append_nil]

theorem filter_intercalate (keep : Symbol → Bool) (between : List Symbol)
    (parts : List (List Symbol)) :
    (between.intercalate parts).filter keep =
      (between.filter keep).intercalate (parts.map (·.filter keep)) := by
  induction parts with
  | nil => rfl
  | cons part rest ih =>
      cases rest with
      | nil => rw [List.intercalate_singleton, List.map_singleton, List.intercalate_singleton]
      | cons next rest =>
          rw [List.intercalate_cons_cons, List.filter_append, List.filter_append, ih]
          simp only [List.map_cons, List.intercalate_cons_cons]

theorem mem_intercalate {between : List Symbol} {parts : List (List Symbol)}
    (listed : symbol ∈ between.intercalate parts) :
    symbol ∈ between ∨ ∃ part ∈ parts, symbol ∈ part := by
  induction parts with
  | nil => cases listed
  | cons part rest ih =>
      cases rest with
      | nil =>
          rw [List.intercalate_singleton] at listed
          exact Or.inr ⟨part, List.mem_cons_self, listed⟩
      | cons next rest =>
          rw [List.intercalate_cons_cons, List.mem_append, List.mem_append] at listed
          rcases listed with (isPart | isBetween) | later
          · exact Or.inr ⟨part, List.mem_cons_self, isPart⟩
          · exact Or.inl isBetween
          · rcases ih later with isBetween | ⟨other, inside, isOther⟩
            · exact Or.inl isBetween
            · exact Or.inr ⟨other, List.mem_cons_of_mem _ inside, isOther⟩

section Pieces

variable [BEq Symbol] {separator : Symbol}

/-- The pieces of a text, without the blanks around them. -/
def pieces (blank : Symbol → Bool) (separator : Symbol) (text : List Symbol) : List (List Symbol) :=
  (text.splitOn separator).map (trim blank)

theorem pieces_ne_nil (blank : Symbol → Bool) (separator : Symbol) (text : List Symbol) :
    pieces blank separator text ≠ [] := by
  rw [pieces, ne_eq, List.map_eq_nil_iff]
  exact List.splitOn_ne_nil separator text

theorem trim_of_mem_pieces {piece : List Symbol} (inside : piece ∈ pieces blank separator text) :
    trim blank piece = piece := by
  rcases List.mem_map.mp inside with ⟨raw, _, rfl⟩
  exact trim_trim blank raw

variable [LawfulBEq Symbol]

theorem pieces_append_cons (before after : List Symbol) :
    pieces blank separator (before ++ separator :: after) =
      pieces blank separator before ++ pieces blank separator after := by
  rw [pieces, List.splitOn_append_cons_self, List.map_append, pieces, pieces]

theorem pieces_of_not_mem (whole : separator ∉ text) :
    pieces blank separator text = [trim blank text] := by
  rw [pieces, List.splitOn_eq_singleton whole, List.map_singleton]

/-- What has no separator is in front of the first piece. -/
theorem splitOn_append_left (whole : separator ∉ front) :
    (front ++ text).splitOn separator = (text.splitOn separator).modifyHead (front ++ ·) := by
  rcases List.exists_cons_of_ne_nil (List.splitOn_ne_nil separator text) with ⟨first, rest, splits⟩
  rw [splits, List.modifyHead_cons]
  induction front with
  | nil => exact splits
  | cons symbol front ih =>
      rw [List.mem_cons, not_or] at whole
      have other : (symbol == separator) = false := by
        rw [beq_eq_false_iff_ne]
        exact Ne.symm whole.1
      rw [List.cons_append, List.splitOn_cons_eq_if_modifyHead, other, ih whole.2]
      rfl

/-- Blanks in front of a text are in front of its first piece. -/
theorem pieces_append_left (solid : blank separator = false)
    (blanks : ∀ symbol ∈ front, blank symbol = true) :
    pieces blank separator (front ++ text) = pieces blank separator text := by
  have notFront : separator ∉ front := by
    intro inside
    exact Bool.false_ne_true (solid.symm.trans (blanks separator inside))
  rcases List.exists_cons_of_ne_nil (List.splitOn_ne_nil separator text) with ⟨first, rest, splits⟩
  rw [pieces, pieces, splitOn_append_left notFront, splits, List.modifyHead_cons, List.map_cons,
    List.map_cons, trim_append_left blanks]

/-- Blanks behind a text are behind its last piece. -/
theorem pieces_append_right (solid : blank separator = false)
    (blanks : ∀ symbol ∈ back, blank symbol = true) :
    pieces blank separator (text ++ back) = pieces blank separator text := by
  have notBack : separator ∉ back := by
    intro inside
    exact Bool.false_ne_true (solid.symm.trans (blanks separator inside))
  induction length : text.length using Nat.strong_induction_on generalizing text with
  | _ size ih =>
      by_cases cuts : separator ∈ text
      · rcases List.append_of_mem cuts with ⟨before, after, rfl⟩
        have shorter : after.length < size := by
          rw [← length, List.length_append, List.length_cons]
          omega
        rw [List.append_assoc, List.cons_append, pieces_append_cons, pieces_append_cons,
          ih after.length shorter rfl]
      · have whole : separator ∉ text ++ back := by
          rw [List.mem_append, not_or]
          exact ⟨cuts, notBack⟩
        rw [pieces_of_not_mem whole, pieces_of_not_mem cuts, trim_append_right blanks]

/-- A text and what it is without the blanks at its ends have the same pieces. -/
theorem pieces_trim (solid : blank separator = false) (text : List Symbol) :
    pieces blank separator (trim blank text) = pieces blank separator text := by
  rcases trim_spec blank text with ⟨front, back, same, blankFront, blankBack⟩
  conv_rhs => rw [same, pieces_append_right solid blankBack, pieces_append_left solid blankFront]

/-- No part of a split has a separator, and all its symbols are of the text. -/
theorem mem_of_mem_splitOn {part : List Symbol} (inside : part ∈ text.splitOn separator)
    (listed : symbol ∈ part) : symbol ∈ text ∧ symbol ≠ separator := by
  induction length : text.length using Nat.strong_induction_on generalizing text with
  | _ size ih =>
      by_cases cuts : separator ∈ text
      · rcases List.append_of_mem cuts with ⟨before, after, rfl⟩
        rw [List.length_append, List.length_cons] at length
        rw [List.splitOn_append_cons_self, List.mem_append] at inside
        rcases inside with isFront | isBack
        · rcases ih before.length (by omega) isFront rfl with ⟨isIn, other⟩
          exact ⟨List.mem_append_left _ isIn, other⟩
        · rcases ih after.length (by omega) isBack rfl with ⟨isIn, other⟩
          exact ⟨List.mem_append_right _ (List.mem_cons_of_mem _ isIn), other⟩
      · rw [List.splitOn_eq_singleton cuts, List.mem_singleton] at inside
        rw [inside] at listed
        refine ⟨listed, ?_⟩
        rintro rfl
        exact cuts listed

theorem mem_of_mem_pieces {piece : List Symbol} (inside : piece ∈ pieces blank separator text)
    (listed : symbol ∈ piece) : symbol ∈ text ∧ symbol ≠ separator := by
  rcases List.mem_map.mp inside with ⟨part, isPart, rfl⟩
  exact mem_of_mem_splitOn isPart (mem_of_mem_trim listed)

/-- Texts that are joined are split each on its own. -/
theorem splitOn_intercalate_flatMap {parts : List (List Symbol)} (some : parts ≠ []) :
    ([separator].intercalate parts).splitOn separator =
      parts.flatMap (·.splitOn separator) := by
  induction parts with
  | nil => exact absurd rfl some
  | cons part rest ih =>
      cases rest with
      | nil => simp
      | cons next rest =>
          rw [List.intercalate_cons_cons, List.append_assoc, List.singleton_append,
            List.splitOn_append_cons_self, ih (List.cons_ne_nil _ _)]
          rfl

/-- Pieces that were joined with blanks around the separators. -/
theorem pieces_intercalate (solid : blank separator = false)
    (blankFront : ∀ symbol ∈ front, blank symbol = true)
    (blankBack : ∀ symbol ∈ back, blank symbol = true) {parts : List (List Symbol)} (some : parts ≠ [])
    (whole : ∀ part ∈ parts, separator ∉ part) :
    pieces blank separator ((front ++ separator :: back).intercalate parts) =
      parts.map (trim blank) := by
  induction parts with
  | nil => exact absurd rfl some
  | cons part rest ih =>
      rw [List.forall_mem_cons] at whole
      cases rest with
      | nil => rw [List.intercalate_singleton, pieces_of_not_mem whole.1, List.map_singleton]
      | cons next rest =>
          have joined : (front ++ separator :: back).intercalate (part :: next :: rest) =
              (part ++ front) ++ separator ::
                (back ++ (front ++ separator :: back).intercalate (next :: rest)) := by
            rw [List.intercalate_cons_cons]
            simp only [List.append_assoc, List.cons_append]
          rw [joined, pieces_append_cons, pieces_append_right solid blankFront,
            pieces_append_left solid blankBack, pieces_of_not_mem whole.1,
            ih (List.cons_ne_nil _ _) whole.2]
          rfl

/-- The pieces joined again show what the text shows. -/
theorem filter_intercalate_pieces (solid : blank separator = false)
    (blankFront : ∀ symbol ∈ front, blank symbol = true)
    (blankBack : ∀ symbol ∈ back, blank symbol = true) (text : List Symbol) :
    ((front ++ separator :: back).intercalate (pieces blank separator text)).filter (!blank ·) =
      text.filter (!blank ·) := by
  have bare : ∀ around : List Symbol, (∀ symbol ∈ around, blank symbol = true) →
      around.filter (!blank ·) = [] := fun _ => filter_blanks
  have between : (front ++ separator :: back).filter (!blank ·) = [separator] := by
    rw [List.filter_append, bare front blankFront, List.nil_append,
      List.filter_cons_of_pos (by simp [solid]), bare back blankBack]
  have alone : [separator].filter (!blank ·) = [separator] :=
    List.filter_cons_of_pos (by simp [solid])
  have sameParts : (pieces blank separator text).map (·.filter (!blank ·)) =
      (text.splitOn separator).map (·.filter (!blank ·)) := by
    rw [pieces, List.map_map]
    exact List.map_congr_left fun part _ => filter_trim blank part
  have whole : [separator].intercalate (text.splitOn separator) = text :=
    List.intercalate_splitOn separator
  conv_rhs => rw [← whole, filter_intercalate, alone]
  rw [filter_intercalate, between, sameParts]

end Pieces

end MikroLLM.Library
