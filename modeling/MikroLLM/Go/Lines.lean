import MikroLLM.Go.Quote

/-!
# Spaces around documents and lines

What `TrimSpace` leaves of a text that holds a document, with the blanks that the
scanner passes over around it, and the payloads of the lines of an event stream.
-/

namespace MikroLLM.Go

open Library Scanner

/-- An ASCII character that is no space. -/
def Tight (byte : UInt8) : Prop :=
  byte.toNat < 128 ∧ isSpace (Char.ofNat byte.toNat) = false

instance (byte : UInt8) : Decidable (Tight byte) :=
  inferInstanceAs (Decidable (_ ∧ _))

/-- A text without spaces at its ends. -/
def TightText (text : Bytes) : Prop :=
  ∃ first back front last, text = first :: back ∧ text = front ++ [last] ∧ Tight first ∧ Tight last

/-- Only blanks. -/
def Blanks (text : Bytes) : Prop :=
  ∀ byte ∈ text, isBlank byte = true

/-- The text, but for blanks around it. -/
def Within (text core : Bytes) : Prop :=
  ∃ front back, Blanks front ∧ Blanks back ∧ text = front ++ (core ++ back)

/-- `TrimLeftFunc` with spaces. -/
def trimFront (bytes : Bytes) : Bytes :=
  ((runes bytes).dropWhile Rune.isSpace).flatMap Rune.bytes

/-- `TrimRightFunc` with spaces. -/
def trimBack (bytes : Bytes) : Bytes :=
  ((runes bytes).rdropWhile Rune.isSpace).flatMap Rune.bytes

/-- The field of a line with a payload. -/
def dataField : Bytes :=
  bytesOf "data:"

section Trimming

variable {byte : UInt8} {text core front back before after payload : Bytes}

theorem dropWhile_around {α : Type} {p : α → Bool} {item : α} (stops : p item = false)
    (before after : List α) :
    (before ++ item :: after).dropWhile p = before.dropWhile p ++ item :: after := by
  rw [List.dropWhile_append]
  split
  · rename_i empty
    rw [List.isEmpty_iff.mp empty, List.dropWhile_cons_of_neg (by simp [stops]), List.nil_append]
  · rfl

theorem rdropWhile_around {α : Type} {p : α → Bool} {item : α} (stops : p item = false)
    (before after : List α) :
    (before ++ item :: after).rdropWhile p = before ++ item :: after.rdropWhile p := by
  rw [List.rdropWhile, List.reverse_append, List.reverse_cons, List.append_assoc,
    List.singleton_append, dropWhile_around stops, List.reverse_append, List.reverse_cons,
    List.reverse_reverse, List.append_assoc, List.singleton_append]
  rfl

theorem bytes_ascii (tight : Tight byte) (rest : List Rune) :
    (.valid (Char.ofNat byte.toNat) :: rest).flatMap Rune.bytes =
      byte :: rest.flatMap Rune.bytes := by
  have alone := bytes_runes [byte]
  rw [runes_ascii tight.1, List.flatMap_cons] at alone
  simp only [runes, runesFrom, List.flatMap_nil, List.append_nil] at alone
  rw [List.flatMap_cons, alone]
  rfl

theorem trimBack_around (tight : Tight byte) (before after : Bytes) :
    trimBack (before ++ byte :: after) = before ++ byte :: trimBack after := by
  have noSpace : Rune.isSpace (.valid (Char.ofNat byte.toNat)) = false := tight.2
  rw [trimBack, runes_append tight.1, runes_ascii tight.1, rdropWhile_around noSpace,
    List.flatMap_append, bytes_runes, bytes_ascii tight]
  rfl

/-- What stands before and after a character that is no space is trimmed on its own. -/
theorem trimBytes_around (tight : Tight byte) (before after : Bytes) :
    trimBytes (before ++ byte :: after) = trimFront before ++ byte :: trimBack after := by
  have noSpace : Rune.isSpace (.valid (Char.ofNat byte.toNat)) = false := tight.2
  rw [trimBytes, runes_append tight.1, runes_ascii tight.1, dropWhile_around noSpace,
    rdropWhile_around noSpace, List.flatMap_append, bytes_ascii tight]
  rfl

theorem trimFront_suffix (text : Bytes) : trimFront text <:+ text := by
  rcases List.dropWhile_suffix (p := Rune.isSpace) (l := runes text) with ⟨spaces, cuts⟩
  refine ⟨spaces.flatMap Rune.bytes, ?_⟩
  rw [trimFront, ← List.flatMap_append, cuts, bytes_runes]

theorem isSpace_of_isBlank (blank : isBlank byte = true) :
    byte.toNat < 128 ∧ Rune.isSpace (.valid (Char.ofNat byte.toNat)) = true := by
  revert blank
  revert byte
  apply forall_byte
  decide

theorem runes_of_blanks (blanks : Blanks text) : ∀ rune ∈ runes text, rune.isSpace = true := by
  induction text with
  | nil => simp [runes, runesFrom]
  | cons byte rest ih =>
      rw [Blanks, List.forall_mem_cons] at blanks
      have space := isSpace_of_isBlank blanks.1
      rw [runes_ascii space.1, List.forall_mem_cons]
      exact ⟨space.2, ih blanks.2⟩

theorem trimFront_of_blanks (blanks : Blanks text) : trimFront text = [] := by
  have noRune : (runes text).dropWhile Rune.isSpace = [] :=
    List.dropWhile_eq_nil_iff.mpr (runes_of_blanks blanks)
  rw [trimFront, noRune, List.flatMap_nil]

theorem trimBack_of_blanks (blanks : Blanks text) : trimBack text = [] := by
  have noRune : (runes text).rdropWhile Rune.isSpace = [] :=
    List.rdropWhile_eq_nil_iff.mpr (runes_of_blanks blanks)
  rw [trimBack, noRune, List.flatMap_nil]

/-- The blanks behind a text go. -/
theorem trimBack_within (tight : TightText core) (blanks : Blanks back) (front : Bytes) :
    trimBack (front ++ (core ++ back)) = front ++ core := by
  rcases tight with ⟨_, _, before, last, _, rfl, _, isTight⟩
  have around := trimBack_around isTight (front ++ before) back
  rw [trimBack_of_blanks blanks] at around
  simpa using around

/-- The blanks around a text go. -/
theorem trimBytes_within (tight : TightText core) (within : Within text core) :
    trimBytes text = core := by
  rcases within with ⟨front, back, frontBlanks, backBlanks, rfl⟩
  have trims := trimBack_within tight backBlanks []
  rcases tight with ⟨first, more, _, _, rfl, _, isTight, _⟩
  have begins := trimBack_around isTight [] (more ++ back)
  rw [List.nil_append, List.nil_append] at trims begins
  rw [List.cons_append] at trims ⊢
  rw [begins] at trims
  rw [trimBytes_around isTight, trimFront_of_blanks frontBlanks, List.nil_append]
  exact trims

end Trimming

section Scanning

variable {limit : ℕ} {scanner next : Scanner} {byte : UInt8} {text core : Bytes} {doc value : Doc}
  {stack : List Frame}

/-- What is still to come of a word are letters. -/
def Lettered (scanner : Scanner) : Prop :=
  ∀ rest value, scanner.mode = .word rest value → ∀ byte ∈ rest, 0x61 ≤ byte ∧ byte ≤ 0x7a

def InString (scanner : Scanner) : Prop :=
  ∃ state inner isKey, scanner.mode = .string state inner isKey

theorem mode_endValue (ends : endValue stack value byte = some next) :
    next.mode = .beginValue ∨ next.mode = .beginString ∨ ∃ value, next.mode = .endValue value := by
  unfold endValue at ends
  split at ends
  · cases ends
    exact Or.inr (Or.inr ⟨_, rfl⟩)
  · split at ends
    · split_ifs at ends <;> cases ends
      · exact Or.inl rfl
      · exact Or.inr (Or.inr ⟨_, rfl⟩)
    · split_ifs at ends <;> cases ends
      · exact Or.inr (Or.inl rfl)
      · exact Or.inr (Or.inr ⟨_, rfl⟩)
    · exact nomatch ends

theorem lettered_endValue (ends : endValue stack value byte = some next) : Lettered next := by
  intro rest word isWord
  rcases mode_endValue ends with isMode | isMode | ⟨_, isMode⟩ <;> rw [isMode] at isWord <;>
    cases isWord

theorem lettered_beginValue (begins : beginValue limit stack byte = some next) : Lettered next := by
  intro rest word isWord
  unfold beginValue push at begins
  split_ifs at begins
  · cases begins
    cases isWord
  · cases begins
    cases isWord
  · cases begins
    cases isWord
  · cases begins
    cases isWord
    decide +kernel
  · cases begins
    cases isWord
    decide +kernel
  · cases begins
    cases isWord
    decide +kernel
  · rcases Option.map_eq_some_iff.mp begins with ⟨state, _, rfl⟩
    cases isWord

theorem lettered_step (lettered : Lettered scanner) (steps : step limit scanner byte = some next) :
    Lettered next := by
  rcases scanner with ⟨stack, mode⟩
  unfold step at steps
  cases mode with
  | beginValue =>
      simp only at steps
      split_ifs at steps
      · cases steps
        exact lettered
      · exact lettered_beginValue steps
  | beginValueOrEmpty =>
      simp only at steps
      split_ifs at steps
      · cases steps
        exact lettered
      · split at steps <;> cases steps
        exact fun _ _ isWord => nomatch isWord
      · exact lettered_beginValue steps
  | beginString =>
      simp only at steps
      split_ifs at steps <;> cases steps <;> exact fun _ _ isWord => nomatch isWord
  | beginStringOrEmpty =>
      simp only at steps
      split_ifs at steps
      · cases steps
        exact lettered
      · split at steps <;> cases steps
        exact fun _ _ isWord => nomatch isWord
      · cases steps
        exact fun _ _ isWord => nomatch isWord
  | word rest value =>
      have letters := lettered rest value rfl
      simp only at steps
      split at steps
      · split_ifs at steps
        cases steps
        exact fun _ _ isWord => nomatch isWord
      · split_ifs at steps
        cases steps
        rintro _ _ ⟨⟩
        exact fun byte inside => letters byte (List.mem_cons_of_mem _ inside)
      · exact nomatch steps
  | number state literal =>
      simp only at steps
      split at steps
      · cases steps
        exact fun _ _ isWord => nomatch isWord
      · split_ifs at steps
        exact lettered_endValue steps
  | string state inner isKey =>
      simp only at steps
      split at steps
      · cases steps
        exact fun _ _ isWord => nomatch isWord
      · split_ifs at steps <;> cases steps <;> exact fun _ _ isWord => nomatch isWord
  | endKey key =>
      simp only at steps
      split_ifs at steps
      · cases steps
        exact lettered
      · split at steps <;> cases steps
        exact fun _ _ isWord => nomatch isWord
  | endValue value => exact lettered_endValue steps

theorem lettered_run (lettered : Lettered scanner) (runs : run limit scanner text = some next) :
    Lettered next := by
  induction text generalizing scanner with
  | nil =>
      cases runs
      exact lettered
  | cons byte rest ih =>
      rw [run_cons] at runs
      rcases Option.bind_eq_some_iff.mp runs with ⟨after, steps, later⟩
      exact ih (lettered_step lettered steps) later

theorem lettered_start : Lettered .start :=
  fun _ _ isWord => nomatch isWord

theorem tight_of_start : ∀ byte : UInt8, (NumberState.start byte).isSome = true → Tight byte := by
  apply forall_byte
  decide

theorem tight_of_next (state : NumberState) : ∀ byte : UInt8, (state.next byte).isSome = true →
    Tight byte := by
  apply forall_byte
  cases state <;> decide

theorem tight_of_letter : ∀ byte : UInt8, 0x61 ≤ byte ∧ byte ≤ 0x7a → Tight byte := by
  apply forall_byte
  decide

theorem tight_endValue (ends : endValue stack value byte = some next)
    (notBlank : isBlank byte = false) : Tight byte := by
  simp only [endValue, notBlank, Bool.false_eq_true, if_false] at ends
  split at ends
  · split_ifs at ends with comma bracket
    · rw [comma]
      decide
    · rw [bracket]
      decide
  · split_ifs at ends with comma brace
    · rw [comma]
      decide
    · rw [brace]
      decide
  · exact nomatch ends

theorem tight_beginValue (begins : beginValue limit stack byte = some next) : Tight byte := by
  unfold beginValue at begins
  split_ifs at begins with brace bracket quote letter letter letter
  · rw [brace]
    decide
  · rw [bracket]
    decide
  · rw [quote]
    decide
  · rw [letter]
    decide
  · rw [letter]
    decide
  · rw [letter]
    decide
  · rcases Option.map_eq_some_iff.mp begins with ⟨state, starts, _⟩
    exact tight_of_start byte (by simp [starts])

/-- Outside of strings the scanner takes blanks and characters that are no space. -/
theorem tight_step (lettered : Lettered scanner) (steps : step limit scanner byte = some next)
    (outside : ¬InString scanner ∨ ¬InString next) (notBlank : isBlank byte = false) :
    Tight byte := by
  rcases scanner with ⟨stack, mode⟩
  unfold step at steps
  cases mode with
  | beginValue =>
      simp only [notBlank, Bool.false_eq_true, if_false] at steps
      exact tight_beginValue steps
  | beginValueOrEmpty =>
      simp only [notBlank, Bool.false_eq_true, if_false] at steps
      split_ifs at steps with bracket
      · rw [bracket]
        decide
      · exact tight_beginValue steps
  | beginString =>
      simp only [notBlank, Bool.false_eq_true, if_false] at steps
      split_ifs at steps with quote
      rw [quote]
      decide
  | beginStringOrEmpty =>
      simp only [notBlank, Bool.false_eq_true, if_false] at steps
      split_ifs at steps with brace quote
      · rw [brace]
        decide
      · rw [quote]
        decide
  | word rest value =>
      have letters := lettered rest value rfl
      simp only at steps
      split at steps
      · split_ifs at steps with isLast
        exact tight_of_letter byte (isLast ▸ letters _ (by simp))
      · split_ifs at steps with isNext
        exact tight_of_letter byte (isNext ▸ letters _ (by simp))
      · exact nomatch steps
  | number state literal =>
      simp only at steps
      split at steps
      · rename_i after goesOn
        exact tight_of_next state byte (by simp [goesOn])
      · split_ifs at steps
        exact tight_endValue steps notBlank
  | string state inner isKey =>
      rcases outside with before | after
      · exact absurd ⟨state, inner, isKey, rfl⟩ before
      · simp only at steps
        split at steps
        · cases steps
          exact absurd ⟨_, _, _, rfl⟩ after
        · split at steps
          · rename_i quote
            simp only [Bool.and_eq_true, decide_eq_true_eq] at quote
            rw [quote.2]
            decide
          · exact nomatch steps
  | endKey key =>
      simp only [notBlank, Bool.false_eq_true, if_false] at steps
      split_ifs at steps with colon
      rw [colon]
      decide
  | endValue value => exact tight_endValue steps notBlank

/-- A blank behind a document changes nothing. -/
theorem finish_of_blank (lettered : Lettered scanner) (steps : step limit scanner byte = some next)
    (blank : isBlank byte = true) (finishes : next.finish = some doc) :
    scanner.finish = some doc := by
  rcases scanner with ⟨stack, mode⟩
  have notLetter : ∀ byte : UInt8, 0x61 ≤ byte ∧ byte ≤ 0x7a → isBlank byte = false := by
    apply forall_byte
    decide
  have stopsNumber : ∀ state : NumberState, ∀ byte : UInt8, isBlank byte = true →
      state.next byte = none := by
    intro state
    apply forall_byte
    cases state <;> decide
  unfold step at steps
  cases mode with
  | beginValue | beginValueOrEmpty | beginString | beginStringOrEmpty | endKey key =>
      simp only [blank, if_true, Option.some.injEq] at steps
      rwa [steps]
  | word rest value =>
      have letters := lettered rest value rfl
      simp only at steps
      split at steps
      · split_ifs at steps with isLast
        rw [isLast, notLetter _ (letters _ (by simp))] at blank
        cases blank
      · split_ifs at steps with isNext
        rw [isNext, notLetter _ (letters _ (by simp))] at blank
        cases blank
      · cases steps
  | number state literal =>
      simp only [stopsNumber state byte blank] at steps
      split_ifs at steps with accepts
      simp only [endValue, blank, if_true, Option.some.injEq] at steps
      subst steps
      cases stack with
      | nil => simpa [finish, accepts] using finishes
      | cons frame below => simp [finish] at finishes
  | string state inner isKey =>
      simp only at steps
      split at steps
      · cases steps
        simp [finish] at finishes
      · split at steps
        · rename_i quote
          simp only [Bool.and_eq_true, decide_eq_true_eq] at quote
          rw [quote.2] at blank
          cases blank
        · cases steps
  | endValue value =>
      simp only [endValue, blank, if_true, Option.some.injEq] at steps
      rwa [steps]

/-- After the end of a line no document goes on with the letter d. -/
theorem step_after_newline (lettered : Lettered scanner) (steps : step limit scanner 0x0a = some next) :
    step limit next 0x64 = none := by
  have begins : ∀ stack, beginValue limit stack 0x64 = none := fun stack => rfl
  have ends : ∀ stack value, endValue stack value 0x64 = none := by
    intro stack value
    unfold endValue
    split
    · rename_i blank
      exact nomatch blank
    · split <;> rfl
  rcases scanner with ⟨stack, mode⟩
  unfold step at steps
  cases mode with
  | beginValue | beginValueOrEmpty | beginString | beginStringOrEmpty | endKey key =>
      cases steps
      rfl
  | word rest value =>
      have letters := lettered rest value rfl
      simp only at steps
      split at steps
      · split_ifs at steps with isLast
        have letter := letters _ (List.mem_singleton_self _)
        rw [← isLast] at letter
        exact absurd letter (by decide)
      · split_ifs at steps with isNext
        have letter := letters _ List.mem_cons_self
        rw [← isNext] at letter
        exact absurd letter (by decide)
      · exact nomatch steps
  | number state literal =>
      have stops : state.next 0x0a = none := by
        cases state <;> rfl
      simp only [stops] at steps
      split_ifs at steps
      cases steps
      exact ends _ _
  | string state inner isKey =>
      have stops : state.next (byteChar 0x0a) = none := by
        cases state with
        | inString => decide
        | escape => decide
        | unicode digits => rfl
      simp only [stops] at steps
      split at steps
      · rename_i quote
        simp at quote
      · exact nomatch steps
  | endValue value =>
      cases steps
      exact ends _ _

theorem not_inString_of_finish (finishes : scanner.finish = some doc) : ¬InString scanner := by
  rintro ⟨state, inner, isKey, isString⟩
  rcases scanner with ⟨stack, mode⟩
  simp only at isString
  subst isString
  cases stack <;> simp [finish] at finishes

/-- The blanks in front of a document. -/
theorem parseDoc_front (parses : parseDoc limit text = some doc) :
    ∃ front first back, Blanks front ∧ text = front ++ first :: back ∧ isBlank first = false ∧
      parseDoc limit (first :: back) = some doc := by
  induction text with
  | nil => simp [parseDoc, run, start, finish] at parses
  | cons byte rest ih =>
      by_cases blank : isBlank byte = true
      · have same : step limit .start byte = some .start := by
          simp [step, start, blank]
        rw [parseDoc, run_cons, same, Option.bind_some] at parses
        rcases ih parses with ⟨front, first, back, blanks, rfl, rest⟩
        refine ⟨byte :: front, first, back, ?_, rfl, rest⟩
        rw [Blanks, List.forall_mem_cons]
        exact ⟨blank, blanks⟩
      · exact ⟨[], byte, rest, by simp [Blanks], rfl, by simpa using blank, parses⟩

/-- The blanks behind a document. -/
theorem parseDoc_back (parses : parseDoc limit text = some doc) :
    ∃ front last back, Blanks back ∧ text = front ++ last :: back ∧ Tight last ∧
      parseDoc limit (front ++ [last]) = some doc := by
  induction text using List.reverseRecOn with
  | nil => simp [parseDoc, run, start, finish] at parses
  | append_singleton before byte ih =>
      have parsesAll := parses
      rw [parseDoc, run_append] at parses
      rcases Option.bind_eq_some_iff.mp parses with ⟨after, runs, finishes⟩
      rcases Option.bind_eq_some_iff.mp runs with ⟨middle, runsBefore, steps⟩
      have lettered := lettered_run lettered_start runsBefore
      simp only [run, List.foldlM_cons, List.foldlM_nil, bind_pure] at steps
      by_cases blank : isBlank byte = true
      · have parsesBefore : parseDoc limit before = some doc := by
          rw [parseDoc, runsBefore, Option.bind_some, finish_of_blank lettered steps blank finishes]
        rcases ih parsesBefore with ⟨front, last, back, blanks, rfl, isTight, parsesCore⟩
        refine ⟨front, last, back ++ [byte], ?_, by simp, isTight, parsesCore⟩
        intro other inside
        rcases List.mem_append.mp inside with early | isByte
        · exact blanks other early
        · rw [List.mem_singleton.mp isByte]
          exact blank
      · have isTight := tight_step lettered steps (Or.inr (not_inString_of_finish finishes))
          (by simpa using blank)
        exact ⟨before, byte, [], by simp [Blanks], rfl, isTight, parsesAll⟩

/-- A document stands between blanks, and has no spaces at its ends. -/
theorem within_of_parseDoc (parses : parseDoc limit text = some doc) :
    ∃ core, Within text core ∧ TightText core ∧ parseDoc limit core = some doc := by
  rcases parseDoc_front parses with ⟨front, first, rest, frontBlanks, rfl, notBlank, parsesRest⟩
  rcases parseDoc_back parsesRest with ⟨before, last, back, backBlanks, same, lastTight, parsesCore⟩
  refine ⟨before ++ [last], ⟨front, back, frontBlanks, backBlanks, by simp [same]⟩, ?_, parsesCore⟩
  have begins : ∃ more, before ++ [last] = first :: more := by
    cases before with
    | nil =>
        rw [List.nil_append, List.cons.injEq] at same
        exact ⟨[], by rw [same.1, List.nil_append]⟩
    | cons other more =>
        rw [List.cons_append, List.cons.injEq] at same
        exact ⟨more ++ [last], by rw [same.1, List.cons_append]⟩
  rcases begins with ⟨more, isCore⟩
  refine ⟨first, more, before, last, isCore, rfl, ?_, lastTight⟩
  rw [isCore, parseDoc, run_cons] at parsesCore
  rcases Option.bind_eq_some_iff.mp parsesCore with ⟨_, runs, _⟩
  rcases Option.bind_eq_some_iff.mp runs with ⟨_, steps, _⟩
  apply tight_step lettered_start steps (Or.inl _) notBlank
  rintro ⟨_, _, _, isString⟩
  cases isString

theorem tightText_of_number {literal : Bytes} (isNumber : IsNumber literal) : TightText literal := by
  rcases isNumber with ⟨state, after, _⟩
  cases literal with
  | nil => exact nomatch after
  | cons first rest =>
      rcases Option.bind_eq_some_iff.mp after with ⟨started, starts, reads⟩
      have isTight := tight_of_start first (by simp [starts])
      refine ⟨first, rest, (first :: rest).dropLast, (first :: rest).getLast (by simp), rfl, ?_,
        isTight, ?_⟩
      · rw [List.dropLast_append_getLast]
      · clear after starts
        induction rest using List.reverseRecOn with
        | nil => exact isTight
        | append_singleton before last _ =>
            rw [List.foldlM_append, Option.bind_eq_bind, Option.bind_eq_some_iff] at reads
            rcases reads with ⟨middle, _, steps⟩
            rw [List.foldlM_cons, Option.bind_eq_bind, Option.bind_eq_some_iff] at steps
            rcases steps with ⟨next, goesOn, _⟩
            simpa using tight_of_next middle last (by simp [goesOn])

/-- The text of a document has no spaces at its ends. -/
theorem tightText_print {room : ℕ} (readable : Readable room doc) : TightText doc.print := by
  cases readable with
  | null _ =>
      exact ⟨0x6e, bytesOf "ull", bytesOf "nul", 0x6c, by decide, by decide,
        by decide, by decide⟩
  | bool _ value =>
      cases value with
      | true =>
          exact ⟨0x74, bytesOf "rue", bytesOf "tru", 0x65, by decide, by decide,
            by decide, by decide⟩
      | false =>
          exact ⟨0x66, bytesOf "alse", bytesOf "fals", 0x65, by decide, by decide,
            by decide, by decide⟩
  | number _ isNumber => exact tightText_of_number isNumber
  | string _ isInner => exact ⟨_, _, _, _, rfl, List.cons_append.symm, by decide, by decide⟩
  | array _ => exact ⟨_, _, _, _, rfl, List.cons_append.symm, by decide, by decide⟩
  | object _ _ => exact ⟨_, _, _, _, rfl, List.cons_append.symm, by decide, by decide⟩

theorem trimBytes_print {room : ℕ} (readable : Readable room doc) :
    trimBytes doc.print = doc.print :=
  trimBytes_within (tightText_print readable) ⟨[], [], by simp [Blanks], by simp [Blanks], by simp⟩

theorem print_ne_nil {room : ℕ} (readable : Readable room doc) : doc.print ≠ [] := by
  rcases tightText_print readable with ⟨_, _, _, _, begins, _⟩
  simp [begins]

/-- A document is read as well when the spaces around it are gone. -/
theorem parseDoc_trimBytes (parses : parseDoc limit text = some doc) :
    parseDoc limit (trimBytes text) = some doc ∧ TightText (trimBytes text) := by
  rcases within_of_parseDoc parses with ⟨core, within, tight, parsesCore⟩
  rw [trimBytes_within tight within]
  exact ⟨parsesCore, tight⟩

end Scanning

section EventStream

variable {limit : ℕ} {payload core line body : Bytes}

theorem trimBytes_dataLine (payload : Bytes) :
    trimBytes (dataField ++ payload) = dataField ++ trimBack payload := by
  have colon : Tight 0x3a := by decide
  have around := trimBytes_around colon (bytesOf "data") payload
  have front : trimFront (bytesOf "data") = bytesOf "data" := by decide
  have field : dataField = bytesOf "data" ++ [0x3a] := by decide
  rw [front] at around
  rw [field, List.append_assoc, List.singleton_append, around, List.append_assoc,
    List.singleton_append]

theorem trimBytes_payload (tight : TightText core) (within : Within payload core) :
    trimBytes (trimBack payload) = core := by
  rcases within with ⟨front, back, frontBlanks, backBlanks, rfl⟩
  rw [trimBack_within tight backBlanks]
  apply trimBytes_within tight
  exact ⟨front, [], frontBlanks, by simp [Blanks], by simp⟩

/-- What stands before a line ends with the end of another. -/
theorem around_of_mem_splitOn (listed : line ∈ body.splitOn 0x0a) :
    ∃ before after, body = before ++ (line ++ after) ∧
      (before = [] ∨ ∃ earlier, before = earlier ++ [0x0a]) := by
  have joins : [0x0a].intercalate (body.splitOn 0x0a) = body := List.intercalate_splitOn 0x0a
  rw [← joins]
  generalize body.splitOn 0x0a = lines at listed
  induction lines with
  | nil => cases listed
  | cons first rest ih =>
      by_cases last : rest = []
      · subst last
        rw [List.mem_singleton] at listed
        exact ⟨[], [], by simp [listed], Or.inl rfl⟩
      · have splits : [0x0a].intercalate (first :: rest) =
            first ++ 0x0a :: [0x0a].intercalate rest := by
          cases rest with
          | nil => exact absurd rfl last
          | cons second more => simp [List.intercalate]
        rw [splits]
        rcases List.mem_cons.mp listed with rfl | later
        · exact ⟨[], _, rfl, Or.inl rfl⟩
        · rcases ih later with ⟨before, after, same, ends⟩
          refine ⟨first ++ 0x0a :: before, after, by simp [same], Or.inr ?_⟩
          rcases ends with rfl | ⟨earlier, rfl⟩
          · exact ⟨first, by simp⟩
          · exact ⟨first ++ 0x0a :: earlier, by simp⟩

/-- An event stream with a payload is no document. -/
theorem parseDoc_of_dataLine (listed : line ∈ body.splitOn 0x0a) (isData : dataField <+: line) :
    trimBytes body ≠ [] ∧ parseDoc limit (trimBytes body) = none := by
  rcases around_of_mem_splitOn listed with ⟨before, after, rfl, ends⟩
  rcases isData with ⟨payload, rfl⟩
  have field : dataField = 0x64 :: bytesOf "ata:" := by decide
  have letter : Tight 0x64 := by decide
  rw [field, List.cons_append, List.cons_append, trimBytes_around letter]
  rcases trimFront_suffix before with ⟨spaces, cuts⟩
  have stops : (run limit .start (trimFront before)).bind (step limit · 0x64) = none := by
    rcases List.eq_nil_or_concat (trimFront before) with empty | ⟨kept, last, isKept⟩
    · rw [empty]
      rfl
    · rw [List.concat_eq_append] at isKept
      have newline : last = 0x0a := by
        rw [isKept, ← List.append_assoc] at cuts
        rcases ends with rfl | ⟨earlier, rfl⟩
        · simp at cuts
        · exact List.singleton_inj.mp (List.append_inj_right' cuts rfl)
      rw [isKept, newline, run_append, Option.bind_assoc, Option.bind_eq_none_iff]
      intro middle runs
      have lettered := lettered_run lettered_start runs
      simp only [run, List.foldlM_cons, List.foldlM_nil, bind_pure, Option.bind_eq_none_iff]
      exact fun after steps => step_after_newline lettered steps
  refine ⟨by simp, ?_⟩
  rw [parseDoc, run_append, Option.bind_assoc]
  rw [Option.bind_eq_none_iff] at stops ⊢
  intro middle runs
  rw [run_cons, stops middle runs]
  rfl

end EventStream

end MikroLLM.Go
