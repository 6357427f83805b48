import MikroLLM.Go.Json
import MikroLLM.Go.Scanner
import MikroLLM.Go.Utf8

/-!
# Strings and values of documents

How package `encoding/json` writes and reads what stands between the quotes of a
string, how `Marshal` rewrites a document that it is given as text, and the value
that a document stands for.
-/

namespace MikroLLM.Go

open Library

/-- The value of a hexadecimal digit. -/
def hexValue (char : Char) : ℕ :=
  if char ≤ '9' then char.toNat - 48
  else if char ≤ 'F' then char.toNat - 55
  else char.toNat - 87

/-- `getu4`. -/
def hexNumber (digits : List Char) : ℕ :=
  digits.foldl (fun number digit => 16 * number + hexValue digit) 0

/-- The replacement character for the first half of a surrogate pair without its second half. -/
def unpaired (pending : Option ℕ) : List Char :=
  if pending.isSome then ['\ufffd'] else []

/-- The character of an escape that is no number. -/
def unescape (char : Char) : Char :=
  if char = 'b' then '\x08'
  else if char = 'f' then '\x0c'
  else if char = 'n' then '\n'
  else if char = 'r' then '\r'
  else if char = 't' then '\t'
  else char

/-- An escape with a number, after the first half of a pair or without: the characters, and the
first half that is pending then. -/
def unquoteNumber (pending : Option ℕ) (number : ℕ) : List Char × Option ℕ :=
  if 0xd800 ≤ number ∧ number < 0xdc00 then (unpaired pending, some number)
  else if 0xdc00 ≤ number ∧ number < 0xe000 then
    match pending with
    | some high => ([Char.ofNat (0x10000 + 0x400 * (high - 0xd800) + (number - 0xdc00))], none)
    | none => (['\ufffd'], none)
  else (unpaired pending ++ [Char.ofNat number], none)

/-- `unquoteBytes`, on the characters between the quotes. -/
def unquoteFrom : StringState → Option ℕ → List Char → List Char
  | _, pending, [] => unpaired pending
  | .inString, pending, char :: rest =>
      if char = '\\' then unquoteFrom .escape pending rest
      else unpaired pending ++ char :: unquoteFrom .inString none rest
  | .escape, pending, char :: rest =>
      if char = 'u' then unquoteFrom (.unicode []) pending rest
      else unpaired pending ++ unescape char :: unquoteFrom .inString none rest
  | .unicode digits, pending, char :: rest =>
      if digits.length = 3 then
        let unquoted := unquoteNumber pending (hexNumber (digits ++ [char]))
        unquoted.1 ++ unquoteFrom .inString unquoted.2 rest
      else unquoteFrom (.unicode (digits ++ [char])) pending rest

/-- The text of a string. -/
def unquote (inner : Bytes) : String :=
  String.ofList (unquoteFrom .inString none (decodeText inner).toList)

/-- An escape with a number below 65536. -/
def escapeNumber (number : ℕ) : List Char :=
  ['\\', 'u', (number / 4096 % 16).digitChar, (number / 256 % 16).digitChar,
    (number / 16 % 16).digitChar, (number % 16).digitChar]

/-- What `Marshal` writes with a number besides control characters, so that documents can stand in
HTML. -/
def htmlEscaped (char : Char) : Bool :=
  char ∈ ['<', '>', '&', '\u2028', '\u2029']

/-- `appendString`, for one character. -/
def quoteRune : Rune → List Char
  | .invalid _ => escapeNumber 0xfffd
  | .valid char =>
      if char = '"' || char = '\\' then ['\\', char]
      else if char = '\x08' then ['\\', 'b']
      else if char = '\x0c' then ['\\', 'f']
      else if char = '\n' then ['\\', 'n']
      else if char = '\r' then ['\\', 'r']
      else if char = '\t' then ['\\', 't']
      else if char < ' ' || htmlEscaped char then escapeNumber char.toNat
      else [char]

/-- `Marshal` of a string, between the quotes. -/
def quote (text : Bytes) : Bytes :=
  bytesOf (String.ofList ((runes text).flatMap quoteRune))

/-- The escape that `compact` writes for a character. -/
def htmlEscape (char : Char) : Option String :=
  if htmlEscaped char then some (String.ofList (escapeNumber char.toNat)) else none

/-- `compact`, on what stands between the quotes of a string. -/
def compactInner (inner : Bytes) : Bytes :=
  replaceRunes htmlEscape inner

mutual

/-- `compact`: the document without blanks and with the escapes for HTML. -/
def Doc.compact : Doc → Doc
  | .null => .null
  | .bool value => .bool value
  | .number literal => .number literal
  | .string inner => .string (compactInner inner)
  | .array items => .array (compactItems items)
  | .object members => .object (compactMembers members)

def compactItems : List Doc → List Doc
  | [] => []
  | item :: rest => item.compact :: compactItems rest

def compactMembers : List (Bytes × Doc) → List (Bytes × Doc)
  | [] => []
  | (key, value) :: rest => (compactInner key, value.compact) :: compactMembers rest

end

/-- The digits of a number, up to the next byte that is none. -/
def digitsValue (digits : Bytes) : ℕ :=
  digits.foldl (fun number digit => 10 * number + (digit.toNat - 48)) 0

/-- The value of a number. -/
def numberValue (literal : Bytes) : Decimal :=
  let negative := literal.head? = some 0x2d
  let isDigit := fun byte : UInt8 => decide (0x30 ≤ byte ∧ byte ≤ 0x39)
  let unsigned := if negative then literal.tail else literal
  let mantissa := unsigned.takeWhile fun byte => isDigit byte || byte = 0x2e
  let fraction := (mantissa.dropWhile (· ≠ 0x2e)).tail
  let power := (unsigned.drop mantissa.length).tail
  let exponent : ℤ :=
    if power.head? = some 0x2d then -digitsValue (power.filter isDigit)
    else digitsValue (power.filter isDigit)
  let number : ℤ := digitsValue (mantissa.filter isDigit)
  ⟨if negative then -number else number, exponent - fraction.length⟩

mutual

/-- The value that a document stands for. -/
def Doc.value : Doc → Json
  | .null => .null
  | .bool value => .bool value
  | .number literal => .number (numberValue literal)
  | .string inner => .string (unquote inner)
  | .array items => .array (itemsValue items)
  | .object members => .object (membersValue members)

def itemsValue : List Doc → List Json
  | [] => []
  | item :: rest => item.value :: itemsValue rest

def membersValue : List (Bytes × Doc) → List (String × Json)
  | [] => []
  | (key, value) :: rest => (unquote key, value.value) :: membersValue rest

end

mutual

/-- How many arrays and objects are open at once. -/
def Doc.depth : Doc → ℕ
  | .array items => itemsDepth items + 1
  | .object members => membersDepth members + 1
  | _ => 0

def itemsDepth : List Doc → ℕ
  | [] => 0
  | item :: rest => max item.depth (itemsDepth rest)

def membersDepth : List (Bytes × Doc) → ℕ
  | [] => 0
  | (_, value) :: rest => max value.depth (membersDepth rest)

end

/-- `Unmarshal` into a string. -/
def unmarshalString (text : Bytes) : Option String :=
  match parseDoc maxNestingDepth text with
  | some (.string inner) => some (unquote inner)
  | some .null => some ""
  | _ => none

section Strings

variable {chars rest digits : List Char} {state : StringState} {pending : Option ℕ} {inner text : Bytes}
  {number : ℕ}

theorem hexValue_digitChar : ∀ digit < 16, hexValue digit.digitChar = digit ∧
    isHex digit.digitChar = true := by
  decide

theorem hexNumber_escapeNumber (small : number < 65536) :
    hexNumber [(number / 4096 % 16).digitChar, (number / 256 % 16).digitChar,
      (number / 16 % 16).digitChar, (number % 16).digitChar] = number := by
  simp only [hexNumber, List.foldl_cons, List.foldl_nil]
  rw [(hexValue_digitChar _ (Nat.mod_lt _ (by omega))).1,
    (hexValue_digitChar _ (Nat.mod_lt _ (by omega))).1,
    (hexValue_digitChar _ (Nat.mod_lt _ (by omega))).1,
    (hexValue_digitChar _ (Nat.mod_lt _ (by omega))).1]
  omega

/-- An escape with a number is read as this number. -/
theorem unquoteFrom_escapeNumber (small : number < 65536) (pending : Option ℕ) (rest : List Char) :
    unquoteFrom .inString pending (escapeNumber number ++ rest) =
      (unquoteNumber pending number).1 ++
        unquoteFrom .inString (unquoteNumber pending number).2 rest := by
  have reads := hexNumber_escapeNumber small
  simp only [escapeNumber, List.cons_append, List.nil_append, unquoteFrom, if_true, List.length_nil,
    List.length_cons, reduceIte, Nat.reduceAdd, Nat.reduceEqDiff, reads]

theorem foldlM_escapeNumber (number : ℕ) (rest : List Char) :
    (escapeNumber number ++ rest).foldlM StringState.next .inString =
      rest.foldlM StringState.next .inString := by
  have hex := fun n : ℕ => (hexValue_digitChar (n % 16) (Nat.mod_lt _ (by omega))).2
  simp [escapeNumber, StringState.next, hex]

/-- Between the quotes, a character that is not ASCII stands for itself. -/
theorem next_high {char : Char} (high : 128 ≤ char.toNat) (state : StringState) :
    state.next char = if state = .inString then some .inString else none := by
  have above : ∀ other : Char, other.toNat < 128 → char ≠ other := by
    rintro other small rfl
    omega
  have notSpace : ¬char < ' ' := by
    intro less
    have small : char.toNat < 32 := less
    omega
  have notHex : isHex char = false := by
    simp only [isHex, Bool.or_eq_false_iff, Bool.and_eq_false_iff, decide_eq_false_iff_not,
      Char.le_def, UInt32.le_iff_toNat_le]
    have isNat : char.val.toNat = char.toNat := rfl
    rw [isNat]
    refine ⟨⟨Or.inr ?_, Or.inr ?_⟩, Or.inr ?_⟩
    · change ¬char.toNat ≤ 57
      omega
    · change ¬char.toNat ≤ 102
      omega
    · change ¬char.toNat ≤ 70
      omega
  cases state with
  | inString =>
      simp [StringState.next, above '"' (by decide), above '\\' (by decide), notSpace]
  | escape =>
      simp [StringState.next, above 'u' (by decide), above 'b' (by decide), above 'f' (by decide),
        above 'n' (by decide), above 'r' (by decide), above 't' (by decide), above '\\' (by decide),
        above '/' (by decide), above '"' (by decide)]
  | unicode digits => simp [StringState.next, notHex]

theorem byteChar_toNat : ∀ byte : UInt8, (byteChar byte).toNat = byte.toNat := by
  apply forall_byte
  decide

/-- The scanner goes through the bytes of a rune as through its character. -/
theorem foldlM_rune {rune : Rune} (high : ∀ byte, rune = .invalid byte → 128 ≤ byte.toNat)
    (state : StringState) :
    rune.bytes.foldlM (fun state byte => state.next (byteChar byte)) state = state.next rune.char := by
  have manyHigh : ∀ bytes : Bytes, bytes ≠ [] → (∀ byte ∈ bytes, 128 ≤ byte.toNat) →
      ∀ state : StringState, bytes.foldlM (fun state byte => state.next (byteChar byte)) state =
        if state = .inString then some .inString else none := by
    intro bytes
    induction bytes with
    | nil => simp
    | cons byte rest ih =>
        intro _ allHigh state
        rw [List.forall_mem_cons] at allHigh
        rw [List.foldlM_cons, next_high (by rw [byteChar_toNat]; exact allHigh.1)]
        by_cases isInString : state = .inString
        · rw [if_pos isInString, Option.bind_eq_bind, Option.bind_some]
          by_cases empty : rest = []
          · subst empty
            rfl
          · rw [ih empty allHigh.2, if_pos rfl]
        · rw [if_neg isInString]
          rfl
  cases rune with
  | invalid byte =>
      rw [Rune.char, next_high (by decide), Rune.bytes]
      exact manyHigh [byte] (by simp) (by simpa using high byte rfl) state
  | valid char =>
      rw [Rune.char, Rune.bytes]
      by_cases small : char.toNat < 128
      · have isChar : byteChar (UInt8.ofNat char.toNat) = char := by
          rw [byteChar, UInt8.toNat_ofNat', Nat.mod_eq_of_lt (by omega), Char.ofNat_toNat]
        rw [encode_ascii small]
        simp [isChar]
      · rw [next_high (by omega)]
        exact manyHigh _ String.utf8EncodeChar_ne_nil (encode_high (by omega)) state

/-- The scanner goes through a string as through its characters. -/
theorem stringAfter_eq (inner : Bytes) :
    stringAfter inner = ((runes inner).map Rune.char).foldlM StringState.next .inString := by
  have each : ∀ runes : List Rune, (∀ byte, .invalid byte ∈ runes → 128 ≤ byte.toNat) →
      ∀ state : StringState,
        (runes.flatMap Rune.bytes).foldlM (fun state byte => state.next (byteChar byte)) state =
          (runes.map Rune.char).foldlM StringState.next state := by
    intro runes
    induction runes with
    | nil => exact fun _ _ => rfl
    | cons rune rest ih =>
        intro high state
        rw [List.flatMap_cons, List.foldlM_append, List.map_cons, List.foldlM_cons,
          foldlM_rune fun byte same => high byte (same ▸ List.mem_cons_self)]
        congr 1
        funext next
        exact ih (fun byte inside => high byte (List.mem_cons_of_mem _ inside)) next
  have through := each (runes inner) (fun _ => invalid_high) .inString
  rwa [bytes_runes] at through

/-- What is written for a rune is read as its character, and leaves the scanner in the string. -/
theorem quoteRune_reads (rune : Rune) (rest : List Char) :
    unquoteFrom .inString none (quoteRune rune ++ rest) =
        rune.char :: unquoteFrom .inString none rest ∧
      (quoteRune rune ++ rest).foldlM StringState.next .inString =
        rest.foldlM StringState.next .inString := by
  have number : ∀ char : Char, char.toNat < 0xd800 ∨ char.toNat = 0xfffd → ∀ rest,
      unquoteFrom .inString none (escapeNumber char.toNat ++ rest) =
        char :: unquoteFrom .inString none rest := by
    intro char small rest
    rw [unquoteFrom_escapeNumber (by omega), unquoteNumber, if_neg (by omega), if_neg (by omega)]
    simp [unpaired]
  cases rune with
  | invalid byte => exact ⟨number '\ufffd' (Or.inr (by decide)) rest, foldlM_escapeNumber _ rest⟩
  | valid char =>
      simp only [quoteRune]
      split_ifs with mark backspace feed newline carriage tab escaped
      · simp only [Bool.or_eq_true, decide_eq_true_eq] at mark
        rcases mark with rfl | rfl <;> exact ⟨rfl, rfl⟩
      · subst backspace
        exact ⟨rfl, rfl⟩
      · subst feed
        exact ⟨rfl, rfl⟩
      · subst newline
        exact ⟨rfl, rfl⟩
      · subst carriage
        exact ⟨rfl, rfl⟩
      · subst tab
        exact ⟨rfl, rfl⟩
      · refine ⟨number char (Or.inl ?_) rest, foldlM_escapeNumber _ rest⟩
        simp only [Bool.or_eq_true, decide_eq_true_eq, htmlEscaped, List.mem_cons,
          List.not_mem_nil, or_false] at escaped
        rcases escaped with control | rfl | rfl | rfl | rfl | rfl
        · have small : char.toNat < 32 := control
          omega
        · decide
        · decide
        · decide
        · decide
        · decide
      · simp only [Bool.or_eq_true, decide_eq_true_eq, not_or] at mark escaped
        simp [unquoteFrom, unpaired, Rune.char, StringState.next, mark, escaped]

theorem runes_quote (text : Bytes) :
    (runes (quote text)).map Rune.char = (runes text).flatMap quoteRune := by
  have same : ∀ chars : List Char, chars.map (Rune.char ∘ Rune.valid) = chars :=
    fun chars => List.map_id' chars
  rw [quote, runes_bytesOf, String.toList_ofList, List.map_map, same]

/-- What `Marshal` writes between quotes is the inside of a string. -/
theorem isInner_quote (text : Bytes) : IsInner (quote text) := by
  rw [IsInner, stringAfter_eq, runes_quote]
  induction runes text with
  | nil => rfl
  | cons rune rest ih => rw [List.flatMap_cons, (quoteRune_reads rune _).2, ih]

/-- A string that was written is read back, with replacement characters for what was no text. -/
theorem unquote_quote (text : Bytes) : unquote (quote text) = decodeText text := by
  have reads : ∀ runes : List Rune,
      unquoteFrom .inString none (runes.flatMap quoteRune) = runes.map Rune.char := by
    intro runes
    induction runes with
    | nil => rfl
    | cons rune rest ih => rw [List.flatMap_cons, (quoteRune_reads rune _).1, ih, List.map_cons]
  rw [unquote, decodeText, String.toList_ofList, runes_quote, reads, decodeText]

theorem replacesByAscii_htmlEscape : ReplacesByAscii htmlEscape := by
  intro char text replaced
  unfold htmlEscape at replaced
  split_ifs at replaced
  cases replaced
  refine ⟨0x5c, (escapeNumber char.toNat).tail.flatMap String.utf8EncodeChar, ?_, by decide⟩
  rw [bytesOf, String.toList_ofList]
  rfl

/-- What `compact` writes for a character. -/
def compactChar (char : Char) : List Char :=
  if htmlEscaped char then escapeNumber char.toNat else [char]

theorem runes_compactInner (inner : Bytes) :
    (runes (compactInner inner)).map Rune.char =
      ((runes inner).map Rune.char).flatMap compactChar := by
  have same : ∀ chars : List Char, chars.map (Rune.char ∘ Rune.valid) = chars :=
    fun chars => List.map_id' chars
  rw [compactInner, runes_replaceRunes replacesByAscii_htmlEscape, List.map_flatMap,
    List.flatMap_map]
  congr 1
  funext rune
  cases rune with
  | invalid byte => rfl
  | valid char =>
      by_cases escaped : htmlEscaped char = true
      · simp [Rune.replace, htmlEscape, compactChar, escaped, Rune.char, same]
      · simp [Rune.replace, htmlEscape, compactChar, escaped, Rune.char]

/-- The escapes for HTML change neither where the scanner is nor what is read. -/
theorem compactChar_reads {last : StringState} (pending : Option ℕ)
    (reads : chars.foldlM StringState.next state = some last) :
    (chars.flatMap compactChar).foldlM StringState.next state = some last ∧
      unquoteFrom state pending (chars.flatMap compactChar) = unquoteFrom state pending chars := by
  induction chars generalizing state pending with
  | nil => exact ⟨reads, rfl⟩
  | cons char rest ih =>
      rw [List.foldlM_cons, Option.bind_eq_bind, Option.bind_eq_some_iff] at reads
      rcases reads with ⟨next, steps, later⟩
      have same := fun pending => (ih pending later).2
      rw [List.flatMap_cons]
      by_cases escaped : htmlEscaped char = true
      · -- such a character stands for itself, and no escape contains it
        have isInString : state = .inString ∧ next = .inString ∧ char ≠ '\\' ∧
            char.toNat < 0xd800 := by
          simp only [htmlEscaped, List.mem_cons, List.not_mem_nil, or_false, decide_eq_true_eq]
            at escaped
          rcases escaped with rfl | rfl | rfl | rfl | rfl <;> cases state <;>
            simp_all [StringState.next, isHex]
        rcases isInString with ⟨rfl, rfl, notEscape, small⟩
        have plain : unquoteNumber pending char.toNat = (unpaired pending ++ [char], none) := by
          unfold unquoteNumber
          rw [if_neg (by omega), if_neg (by omega), Char.ofNat_toNat]
        rw [compactChar, if_pos escaped]
        constructor
        · rw [foldlM_escapeNumber]
          exact (ih none later).1
        · rw [unquoteFrom_escapeNumber (by omega), plain, same]
          simp [unquoteFrom, notEscape]
      · rw [compactChar, if_neg escaped, List.singleton_append]
        constructor
        · rw [List.foldlM_cons, steps]
          exact (ih none later).1
        · cases state with
          | inString =>
              simp only [StringState.next] at steps
              split_ifs at steps with stops backslash <;> cases steps
              · simp only [unquoteFrom, if_pos backslash, same]
              · simp only [unquoteFrom, if_neg backslash, same]
          | escape =>
              simp only [StringState.next] at steps
              split_ifs at steps with isU isEscape <;> cases steps
              · simp only [unquoteFrom, if_pos isU, same]
              · simp only [unquoteFrom, if_neg isU, same]
          | unicode digits =>
              simp only [StringState.next] at steps
              split_ifs at steps with hex full <;> cases steps
              · simp only [unquoteFrom, if_pos full, same]
              · simp only [unquoteFrom, if_neg full, same]

theorem isInner_compactInner (isInner : IsInner inner) : IsInner (compactInner inner) := by
  rw [IsInner, stringAfter_eq] at isInner ⊢
  rw [runes_compactInner]
  exact (compactChar_reads none isInner).1

theorem unquote_compactInner (isInner : IsInner inner) :
    unquote (compactInner inner) = unquote inner := by
  rw [IsInner, stringAfter_eq] at isInner
  rw [unquote, unquote, decodeText, decodeText, String.toList_ofList, String.toList_ofList,
    runes_compactInner, (compactChar_reads none isInner).2]

/-- A string is not longer than what stands between its quotes. -/
theorem length_unquoteFrom (state : StringState) (pending : Option ℕ) (chars : List Char) :
    (unquoteFrom state pending chars).length ≤ chars.length + (unpaired pending).length := by
  have noneUnpaired : (unpaired none).length = 0 := rfl
  have someUnpaired : ∀ high, (unpaired (some high)).length = 1 := fun _ => rfl
  have number : ∀ pending value, (unquoteNumber pending value).1.length +
      (unpaired (unquoteNumber pending value).2).length ≤ 1 + (unpaired pending).length := by
    intro pending value
    unfold unquoteNumber
    split_ifs
    · simp only [someUnpaired]
      omega
    · cases pending <;> simp [unpaired]
    · simp only [List.length_append, List.length_singleton, noneUnpaired]
      omega
  induction chars generalizing state pending with
  | nil => simp [unquoteFrom]
  | cons char rest ih =>
      rw [List.length_cons]
      cases state with
      | inString =>
          simp only [unquoteFrom]
          split
          · have later := ih .escape pending
            omega
          · have later := ih .inString none
            rw [List.length_append, List.length_cons]
            omega
      | escape =>
          simp only [unquoteFrom]
          split
          · have later := ih (.unicode []) pending
            omega
          · have later := ih .inString none
            rw [List.length_append, List.length_cons]
            omega
      | unicode digits =>
          simp only [unquoteFrom]
          split
          · have bound := number pending (hexNumber (digits ++ [char]))
            have later := ih .inString (unquoteNumber pending (hexNumber (digits ++ [char]))).2
            rw [List.length_append]
            omega
          · have later := ih (.unicode (digits ++ [char])) pending
            omega

theorem length_unquote (inner : Bytes) : (unquote inner).length ≤ (runes inner).length := by
  have bound := length_unquoteFrom .inString none ((runes inner).map Rune.char)
  simp only [unpaired, Option.isSome_none, Bool.false_eq_true, if_false, List.length_nil,
    Nat.add_zero, List.length_map] at bound
  rwa [unquote, decodeText, String.toList_ofList, String.length_ofList]

end Strings

section Documents

variable {room more : ℕ} {doc : Doc}

@[simp]
theorem compactItems_eq (items : List Doc) : compactItems items = items.map Doc.compact := by
  induction items with
  | nil => rfl
  | cons item rest ih => rw [compactItems, ih, List.map_cons]

@[simp]
theorem compactMembers_eq (members : List (Bytes × Doc)) : compactMembers members =
    members.map fun member => (compactInner member.1, member.2.compact) := by
  induction members with
  | nil => rfl
  | cons member rest ih => rw [compactMembers, ih, List.map_cons]

@[simp]
theorem itemsValue_eq (items : List Doc) : itemsValue items = items.map Doc.value := by
  induction items with
  | nil => rfl
  | cons item rest ih => rw [itemsValue, ih, List.map_cons]

@[simp]
theorem membersValue_eq (members : List (Bytes × Doc)) : membersValue members =
    members.map fun member => (unquote member.1, member.2.value) := by
  induction members with
  | nil => rfl
  | cons member rest ih => rw [membersValue, ih, List.map_cons]

theorem itemsDepth_le {items : List Doc} :
    itemsDepth items ≤ room ↔ ∀ item ∈ items, item.depth ≤ room := by
  induction items with
  | nil => simp [itemsDepth]
  | cons item rest ih => rw [itemsDepth, max_le_iff, ih, List.forall_mem_cons]

theorem membersDepth_le {members : List (Bytes × Doc)} :
    membersDepth members ≤ room ↔ ∀ member ∈ members, member.2.depth ≤ room := by
  induction members with
  | nil => simp [membersDepth]
  | cons member rest ih => rw [membersDepth, max_le_iff, ih, List.forall_mem_cons]

/-- A document that can be read can be read with as much room as it is deep. -/
theorem readable_iff_depth (readable : Readable room doc) :
    Readable more doc ↔ doc.depth ≤ more := by
  induction readable generalizing more with
  | null room => exact ⟨fun _ => Nat.zero_le _, fun _ => .null more⟩
  | bool room value => exact ⟨fun _ => Nat.zero_le _, fun _ => .bool more value⟩
  | number room isNumber => exact ⟨fun _ => Nat.zero_le _, fun _ => .number more isNumber⟩
  | string room isInner => exact ⟨fun _ => Nat.zero_le _, fun _ => .string more isInner⟩
  | @array room items readable ih =>
      constructor
      · rintro (_ | _ | _ | _ | ⟨inner⟩)
        rw [Doc.depth, Nat.add_le_add_iff_right, itemsDepth_le]
        exact fun item inside => (ih item inside).mp (inner item inside)
      · intro deep
        rw [Doc.depth] at deep
        cases more with
        | zero => omega
        | succ more =>
            rw [Nat.add_le_add_iff_right, itemsDepth_le] at deep
            exact .array fun item inside => (ih item inside).mpr (deep item inside)
  | @object room members keys readable ih =>
      constructor
      · rintro (_ | _ | _ | _ | _ | ⟨_, inner⟩)
        rw [Doc.depth, Nat.add_le_add_iff_right, membersDepth_le]
        exact fun member inside => (ih member inside).mp (inner member inside)
      · intro deep
        rw [Doc.depth] at deep
        cases more with
        | zero => omega
        | succ more =>
            rw [Nat.add_le_add_iff_right, membersDepth_le] at deep
            exact .object keys fun member inside => (ih member inside).mpr (deep member inside)

mutual

theorem depth_compact : ∀ doc : Doc, doc.compact.depth = doc.depth
  | .null | .bool _ | .number _ | .string _ => rfl
  | .array items => by rw [Doc.compact, Doc.depth, Doc.depth, itemsDepth_compact items]
  | .object members => by rw [Doc.compact, Doc.depth, Doc.depth, membersDepth_compact members]

theorem itemsDepth_compact : ∀ items : List Doc,
    itemsDepth (compactItems items) = itemsDepth items
  | [] => rfl
  | item :: rest => by
      rw [compactItems, itemsDepth, itemsDepth, depth_compact item, itemsDepth_compact rest]

theorem membersDepth_compact : ∀ members : List (Bytes × Doc),
    membersDepth (compactMembers members) = membersDepth members
  | [] => rfl
  | (_, value) :: rest => by
      rw [compactMembers, membersDepth, membersDepth, depth_compact value, membersDepth_compact rest]

end

/-- A document that is made compact can be read as before and has the same value. -/
theorem compact_reads (readable : Readable room doc) :
    Readable room doc.compact ∧ doc.compact.value = doc.value := by
  induction readable with
  | null room => exact ⟨.null room, rfl⟩
  | bool room value => exact ⟨.bool room value, rfl⟩
  | number room isNumber => exact ⟨.number room isNumber, rfl⟩
  | string room isInner =>
      refine ⟨.string room (isInner_compactInner isInner), ?_⟩
      rw [Doc.compact, Doc.value, Doc.value, unquote_compactInner isInner]
  | @array room items readable ih =>
      rw [Doc.compact, compactItems_eq]
      constructor
      · apply Readable.array
        intro item inside
        rcases List.mem_map.mp inside with ⟨original, isItem, rfl⟩
        exact (ih original isItem).1
      · rw [Doc.value, Doc.value, itemsValue_eq, itemsValue_eq, List.map_map]
        congr 1
        exact List.map_congr_left fun item inside => (ih item inside).2
  | @object room members keys readable ih =>
      rw [Doc.compact, compactMembers_eq]
      constructor
      · apply Readable.object
        · intro member inside
          rcases List.mem_map.mp inside with ⟨original, isMember, rfl⟩
          exact isInner_compactInner (keys original isMember)
        · intro member inside
          rcases List.mem_map.mp inside with ⟨original, isMember, rfl⟩
          exact (ih original isMember).1
      · rw [Doc.value, Doc.value, membersValue_eq, membersValue_eq, List.map_map]
        congr 1
        apply List.map_congr_left
        intro member inside
        simp only [Function.comp_apply, unquote_compactInner (keys member inside),
          (ih member inside).2]

end Documents

end MikroLLM.Go
