import Mathlib.Data.List.Basic

/-!
# Lines of a stream

A stream arrives in chunks. What is behind the last separator waits in a buffer
until the next chunk, so that the lines are those of the stream, whatever the
chunks.
-/

namespace MikroLLM.Library

universe u

variable {Symbol : Type u} {ends : Symbol → Bool}

/-- The complete lines, without their separators, and what is behind the last separator. -/
def cutLines (ends : Symbol → Bool) : List Symbol → List (List Symbol) × List Symbol
  | [] => ([], [])
  | symbol :: rest =>
      let cut := cutLines ends rest
      if ends symbol then ([] :: cut.1, cut.2)
      else
        match cut.1 with
        | [] => ([], symbol :: cut.2)
        | line :: lines => ((symbol :: line) :: lines, cut.2)

theorem cutLines_cons (symbol : Symbol) (rest : List Symbol) :
    cutLines ends (symbol :: rest) =
      if ends symbol then ([] :: (cutLines ends rest).1, (cutLines ends rest).2)
      else
        match (cutLines ends rest).1 with
        | [] => ([], symbol :: (cutLines ends rest).2)
        | line :: lines => ((symbol :: line) :: lines, (cutLines ends rest).2) :=
  rfl

/-- What comes later is cut together with what is behind the last separator. -/
theorem cutLines_append (before after : List Symbol) :
    cutLines ends (before ++ after) =
      ((cutLines ends before).1 ++ (cutLines ends ((cutLines ends before).2 ++ after)).1,
        (cutLines ends ((cutLines ends before).2 ++ after)).2) := by
  induction before with
  | nil => rfl
  | cons symbol rest ih =>
      rw [List.cons_append, cutLines_cons, cutLines_cons, ih]
      by_cases isEnd : ends symbol = true
      · simp only [if_pos isEnd, List.cons_append]
      · simp only [if_neg isEnd]
        cases lines : (cutLines ends rest).1 with
        | nil =>
            simp only [List.nil_append, List.cons_append]
            rw [cutLines_cons, if_neg isEnd]
        | cons line more => rfl

/-- What is behind the last separator is no line. -/
theorem cutLines_rest (stream : List Symbol) :
    cutLines ends (cutLines ends stream).2 = ([], (cutLines ends stream).2) := by
  induction stream with
  | nil => rfl
  | cons symbol rest ih =>
      rw [cutLines_cons]
      by_cases isEnd : ends symbol = true
      · simp only [if_pos isEnd]
        exact ih
      · simp only [if_neg isEnd]
        cases lines : (cutLines ends rest).1 with
        | nil =>
            simp only
            rw [cutLines_cons, ih]
            simp only [if_neg isEnd]
        | cons line more => exact ih

/-- No line is longer than the stream. -/
theorem length_le_of_mem_cutLines {line stream : List Symbol}
    (isLine : line ∈ (cutLines ends stream).1) : line.length ≤ stream.length := by
  induction stream generalizing line with
  | nil => exact nomatch isLine
  | cons symbol rest ih =>
      rw [cutLines_cons] at isLine
      rw [List.length_cons]
      by_cases isEnd : ends symbol = true
      · simp only [if_pos isEnd, List.mem_cons] at isLine
        rcases isLine with rfl | later
        · exact Nat.zero_le _
        · exact Nat.le_succ_of_le (ih later)
      · simp only [if_neg isEnd] at isLine
        cases lines : (cutLines ends rest).1 with
        | nil => simp [lines] at isLine
        | cons first more =>
            simp only [lines, List.mem_cons] at isLine
            rcases isLine with rfl | later
            · exact Nat.succ_le_succ (ih (lines ▸ List.mem_cons_self))
            · exact Nat.le_succ_of_le (ih (lines ▸ List.mem_cons_of_mem first later))

theorem length_rest_le (stream : List Symbol) :
    (cutLines ends stream).2.length ≤ stream.length := by
  induction stream with
  | nil => exact Nat.le_refl _
  | cons symbol rest ih =>
      rw [cutLines_cons]
      by_cases isEnd : ends symbol = true
      · simp only [if_pos isEnd]
        exact Nat.le_succ_of_le ih
      · simp only [if_neg isEnd]
        cases lines : (cutLines ends rest).1 with
        | nil => exact Nat.succ_le_succ ih
        | cons line more => exact Nat.le_succ_of_le ih

/-- A line without separators, in front of its own. -/
theorem cutLines_line {line rest : List Symbol} {symbol : Symbol}
    (inside : ∀ other ∈ line, ends other = false) (isEnd : ends symbol = true) :
    cutLines ends (line ++ symbol :: rest) =
      (line :: (cutLines ends rest).1, (cutLines ends rest).2) := by
  induction line with
  | nil =>
      rw [List.nil_append, cutLines_cons]
      simp only [if_pos isEnd]
  | cons first more ih =>
      rw [List.forall_mem_cons] at inside
      rw [List.cons_append, cutLines_cons, ih inside.2]
      simp only [inside.1, Bool.false_eq_true, if_false]

/-- What has no separators is no line. -/
theorem cutLines_open {text : List Symbol} (inside : ∀ other ∈ text, ends other = false) :
    cutLines ends text = ([], text) := by
  induction text with
  | nil => rfl
  | cons first more ih =>
      rw [List.forall_mem_cons] at inside
      rw [cutLines_cons, ih inside.2]
      simp only [inside.1, Bool.false_eq_true, if_false]

/-- The lines and what is behind the last separator are what `List.splitOnP` gives. -/
theorem cutLines_eq_splitOnP (stream : List Symbol) :
    (cutLines ends stream).1 ++ [(cutLines ends stream).2] = stream.splitOnP ends := by
  induction stream with
  | nil => rfl
  | cons symbol rest ih =>
      rw [List.splitOnP_cons_eq_if_modifyHead, ← ih, cutLines_cons]
      by_cases isEnd : ends symbol = true
      · simp only [if_pos isEnd, List.cons_append]
      · simp only [if_neg isEnd]
        cases (cutLines ends rest).1 with
        | nil => rfl
        | cons line more => rfl

/-- No separator is in a part. -/
theorem ends_of_mem_splitOnP {part : List Symbol} {stream : List Symbol}
    (isPart : part ∈ stream.splitOnP ends) : ∀ symbol ∈ part, ends symbol = false := by
  induction stream generalizing part with
  | nil =>
      rw [List.splitOnP_nil, List.mem_singleton] at isPart
      simp [isPart]
  | cons first rest ih =>
      rw [List.splitOnP_cons_eq_if_modifyHead] at isPart
      by_cases isEnd : ends first = true
      · rw [if_pos isEnd, List.mem_cons] at isPart
        rcases isPart with rfl | later
        · simp
        · exact ih later
      · rw [if_neg isEnd] at isPart
        cases parts : rest.splitOnP ends with
        | nil => exact absurd parts (List.splitOnP_ne_nil ends rest)
        | cons head more =>
            rw [parts, List.modifyHead_cons, List.mem_cons] at isPart
            rcases isPart with rfl | later
            · rw [List.forall_mem_cons]
              exact ⟨eq_false_of_ne_true isEnd, ih (parts ▸ List.mem_cons_self)⟩
            · exact ih (parts ▸ List.mem_cons_of_mem head later)

end MikroLLM.Library
