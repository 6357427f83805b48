import MikroLLM.Go.Utf8

/-!
# Trimmed strings

What `TrimSpace` leaves of a string begins and ends with a rune that is no space,
and so do the lines that are joined from such strings.
-/

namespace MikroLLM.Go

/-- A string that begins and ends with a rune that is no space. -/
structure Trimmed (text : Bytes) : Prop where
  front : ∃ first rest, runes text = first :: rest ∧ first.isSpace = false
  back : ∃ before last, runes text = before ++ [last] ∧ last.isSpace = false

section Reading

variable {text bytes : Bytes} {before after : List Rune}

/-- What begins no character alone begins none before a character either. -/
theorem decodeRune_before {byte : UInt8} (stops : decodeRune (byte :: bytes) = none) (char : Char)
    (rest : Bytes) :
    decodeRune (byte :: (bytes ++ (String.utf8EncodeChar char ++ rest))) = none := by
  cases decodes : decodeRune (byte :: (bytes ++ (String.utf8EncodeChar char ++ rest))) with
  | none => rfl
  | some other =>
      exfalso
      rcases eq_of_decodeRune decodes with ⟨tail, same⟩
      have whole : (byte :: bytes) ++ (String.utf8EncodeChar char ++ rest) =
          String.utf8EncodeChar other ++ tail := same
      by_cases short : (String.utf8EncodeChar other).length ≤ (byte :: bytes).length
      · have within : String.utf8EncodeChar other <+: byte :: bytes := by
          apply List.prefix_of_prefix_length_le ⟨tail, rfl⟩ _ short
          rw [← whole]
          exact List.prefix_append _ _
        rw [decodeRune_of_isPrefix within] at stops
        exact nomatch stops
      · -- The first byte of the character would be a later byte of another one.
        rw [not_le] at short
        have nonempty : 0 < (String.utf8EncodeChar char).length := by
          rw [String.length_utf8EncodeChar]
          exact char.utf8Size_pos
        have sameByte : (String.utf8EncodeChar other)[(byte :: bytes).length] =
            (String.utf8EncodeChar char)[0] := by
          have sameAt := congrArg (fun list : Bytes => list[(byte :: bytes).length]?) whole
          simp only [List.getElem?_append_right le_rfl, Nat.sub_self,
            List.getElem?_append_left nonempty, List.getElem?_append_left short,
            List.getElem?_eq_getElem nonempty, List.getElem?_eq_getElem short,
            Option.some.injEq] at sameAt
          exact sameAt.symm
        have isFirst : ((String.utf8EncodeChar char)[0]).IsUTF8FirstByte :=
          UInt8.isUTF8FirstByte_getElem_utf8EncodeChar.mpr rfl
        rw [← sameByte, UInt8.isUTF8FirstByte_getElem_utf8EncodeChar, List.length_cons] at isFirst
        omega

/-- A character is read as such, whatever stands before it. -/
theorem runes_append_encode (char : Char) (bytes rest : Bytes) :
    runes (bytes ++ (String.utf8EncodeChar char ++ rest)) =
      runes bytes ++ .valid char :: runes rest := by
  induction length : bytes.length using Nat.strong_induction_on generalizing bytes with
  | _ size ih =>
      rcases runes_cases bytes with rfl | ⟨other, more, rfl, reads⟩ | ⟨byte, more, rfl, stops, _,
        reads⟩
      · exact runes_encode char rest
      · rw [List.length_append, String.length_utf8EncodeChar] at length
        have positive := other.utf8Size_pos
        rw [reads, List.append_assoc, runes_encode, ih more.length (by omega) more rfl,
          List.cons_append]
      · rw [List.length_cons] at length
        rw [List.cons_append, runes, runesFrom, decodeRune_before stops, reads]
        simp only [List.cons_append, List.cons.injEq, true_and]
        exact ih more.length (by omega) more rfl

/-- The runes behind some are read alike without them. -/
theorem runes_of_back (reads : runes text = before ++ after) :
    runes (after.flatMap Rune.bytes) = after := by
  induction before generalizing text with
  | nil =>
      rw [List.nil_append] at reads
      rw [← reads, bytes_runes]
  | cons rune before ih =>
      rcases runes_cases text with rfl | ⟨char, rest, _, readsText⟩ | ⟨byte, rest, _, _, _, readsText⟩
      · exact nomatch reads
      · rw [readsText, List.cons_append, List.cons.injEq] at reads
        exact ih reads.2
      · rw [readsText, List.cons_append, List.cons.injEq] at reads
        exact ih reads.2

/-- The runes in front of spaces are read alike without these. -/
theorem runes_of_front (reads : runes text = before ++ after)
    (spaces : ∀ rune ∈ after, rune.isSpace = true) :
    runes (before.flatMap Rune.bytes) = before := by
  induction after using List.reverseRecOn generalizing text with
  | nil =>
      rw [List.append_nil] at reads
      rw [← reads, bytes_runes]
  | append_singleton after rune ih =>
      rw [List.forall_mem_append, List.forall_mem_singleton] at spaces
      cases rune with
      | invalid byte => exact nomatch spaces.2
      | valid char =>
          have whole : text = (before ++ after).flatMap Rune.bytes ++
              (String.utf8EncodeChar char ++ []) := by
            rw [← bytes_runes text, reads, ← List.append_assoc, List.flatMap_append]
            simp [Rune.bytes]
          have readsFront := runes_append_encode char ((before ++ after).flatMap Rune.bytes) []
          rw [← whole, reads, ← List.append_assoc] at readsFront
          exact ih (List.append_inj_left' readsFront.symm rfl) spaces.1

/-- The runes that `TrimSpace` leaves. -/
theorem runes_trimBytes (text : Bytes) :
    runes (trimBytes text) =
      ((runes text).dropWhile Rune.isSpace).rdropWhile Rune.isSpace := by
  have front := List.takeWhile_append_dropWhile (p := Rune.isSpace) (l := runes text)
  have back : ((runes text).dropWhile Rune.isSpace).rdropWhile Rune.isSpace ++
      ((runes text).dropWhile Rune.isSpace).rtakeWhile Rune.isSpace =
        (runes text).dropWhile Rune.isSpace := List.rdropWhile_append_rtakeWhile
  have reads := runes_of_back front.symm
  exact runes_of_front (reads.trans back.symm) fun rune inside => List.mem_rtakeWhile_imp inside

end Reading

section Trimming

variable {text line log : Bytes}

theorem trimBytes_of_trimmed (trimmed : Trimmed text) : trimBytes text = text := by
  rcases trimmed.front with ⟨first, rest, begins, solidFirst⟩
  rcases trimmed.back with ⟨before, last, ends, solidLast⟩
  have keepsFront : (runes text).dropWhile Rune.isSpace = runes text := by
    rw [begins, List.dropWhile_cons_of_neg (by simp [solidFirst])]
  have keepsBack : (runes text).rdropWhile Rune.isSpace = runes text := by
    rw [ends, List.rdropWhile_concat_neg _ _ _ (by simp [solidLast])]
  rw [trimBytes, keepsFront, keepsBack, bytes_runes]

/-- What `TrimSpace` leaves is trimmed, when it leaves anything. -/
theorem trimmed_trimBytes (left : trimBytes text ≠ []) : Trimmed (trimBytes text) := by
  have notEmpty : runes (trimBytes text) ≠ [] := by
    intro empty
    apply left
    rw [← bytes_runes (trimBytes text), empty, List.flatMap_nil]
  have reads := runes_trimBytes text
  have within := List.rdropWhile_prefix Rune.isSpace ((runes text).dropWhile Rune.isSpace)
  rw [← reads] at within
  constructor
  · cases begins : runes (trimBytes text) with
    | nil => exact absurd begins notEmpty
    | cons first rest =>
        refine ⟨first, rest, rfl, ?_⟩
        rw [begins] at within
        rcases within with ⟨tail, cuts⟩
        have solid := List.head_dropWhile_not Rune.isSpace
          (l := runes text) (by rw [← cuts]; exact List.cons_ne_nil _ _)
        simpa [← cuts] using solid
  · rcases List.eq_nil_or_concat' (runes (trimBytes text)) with empty | ⟨before, last, ends⟩
    · exact absurd empty notEmpty
    · refine ⟨before, last, ends, ?_⟩
      have solid := List.rdropWhile_last_not Rune.isSpace
        ((runes text).dropWhile Rune.isSpace) (by rw [← reads]; exact notEmpty)
      simpa [← reads, ends] using solid

/-- Two trimmed strings, as lines. -/
theorem Trimmed.join (first : Trimmed log) (second : Trimmed line) :
    Trimmed (log ++ 0x0a :: line) := by
  have feed : (0x0a : UInt8).toNat < 128 := by
    decide
  have reads : runes (log ++ 0x0a :: line) =
      runes log ++ .valid (Char.ofNat (0x0a : UInt8).toNat) :: runes line := by
    rw [runes_append feed, runes_ascii feed]
  rcases first.front with ⟨rune, rest, begins, solidFirst⟩
  rcases second.back with ⟨before, last, ends, solidLast⟩
  constructor
  · rw [reads, begins]
    exact ⟨rune, _, rfl, solidFirst⟩
  · rw [reads, ends]
    refine ⟨runes log ++ .valid (Char.ofNat (0x0a : UInt8).toNat) :: before, last, ?_, solidLast⟩
    rw [List.append_assoc, List.cons_append]

/-- `TrimSpace` gives a part of the string. -/
theorem isInfix_trimBytes (text : Bytes) : trimBytes text <:+: text := by
  have within : ((runes text).dropWhile Rune.isSpace).rdropWhile Rune.isSpace <:+: runes text :=
    (List.rdropWhile_prefix _ _).isInfix.trans (List.dropWhile_suffix _).isInfix
  rcases within with ⟨before, after, cuts⟩
  refine ⟨before.flatMap Rune.bytes, after.flatMap Rune.bytes, ?_⟩
  rw [trimBytes, ← List.flatMap_append, ← List.flatMap_append, cuts, bytes_runes]

end Trimming

end MikroLLM.Go
