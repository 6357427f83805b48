import MikroLLM.Go.Unmarshal

/-!
# Structures as JSON

`Marshal` writes a structure as an object, field by field. The members of such an
object are found again by the names of the fields.
-/

namespace MikroLLM.Go

/-- The members of an object whose keys are written without escapes. -/
def membersOf (fields : List (String × Doc)) : List (Bytes × Doc) :=
  fields.map fun field => (bytesOf field.1, field.2)

/-- A field with a text. -/
def textField (name text : String) : String × Doc :=
  (name, .string (quote (bytesOf text)))

/-- A field with an integer. -/
def intField (name : String) (number : ℤ) : String × Doc :=
  (name, .number (intLiteral number))

/-- A field with a text, left out when it is empty. -/
def omitEmpty (name text : String) : List (String × Doc) :=
  if text = "" then [] else [textField name text]

variable {fields : List (String × Doc)} {name text : String} {members : List (Bytes × Doc)}
  {number : ℤ} {room : ℕ}

/-- The fields have names of small letters. -/
def SmallNames (fields : List (String × Doc)) : Prop :=
  ∀ field ∈ fields, SmallName field.1

theorem unquote_small {key : String} (small : SmallName key) : unquote (bytesOf key) = key := by
  have noEscape : '\\' ∉ key.toList := by
    intro inside
    exact absurd (small _ inside) (by decide)
  rw [unquote, decodeText_bytesOf, unquoteFrom_self noEscape, String.ofList_toList]

variable (name) in
theorem valuesOf_membersOf (small : SmallName name) (smallNames : SmallNames fields) :
    valuesOf (membersOf fields) name = (fields.filter (·.1 = name)).map (·.2) := by
  induction fields with
  | nil => rfl
  | cons field rest ih =>
      rw [SmallNames, List.forall_mem_cons] at smallNames
      have tail := ih smallNames.2
      rw [membersOf] at tail ⊢
      rw [List.map_cons, valuesOf_cons, tail, isField_small small smallNames.1, List.filter_cons]
      by_cases same : field.1 = name <;> simp [same]

theorem readable_membersOf (smallNames : SmallNames fields)
    (readable : ∀ field ∈ fields, Readable room field.2) :
    Readable (room + 1) (.object (membersOf fields)) := by
  refine .object ?_ ?_
  · intro member inside
    rcases List.mem_map.mp inside with ⟨field, isField, rfl⟩
    exact isInner_small (smallNames field isField)
  · intro member inside
    rcases List.mem_map.mp inside with ⟨field, isField, rfl⟩
    exact readable field isField

theorem readable_textField (name text : String) : Readable room (textField name text).2 :=
  .string room (isInner_quote _)

theorem readable_intField (name : String) (number : ℤ) : Readable room (intField name number).2 :=
  .number room (isNumber_intLiteral number)

/-- A text is read as it was written. -/
theorem storeField_textField
    (given : valuesOf members name = [.string (quote (bytesOf text))]) :
    storeField storeString members name "" = some text := by
  rw [storeField_once given]
  simp [storeString, unquote_quote, decodeText_bytesOf]

/-- A text that is left out when it is empty is read as it was. -/
theorem storeField_omitEmpty
    (given : valuesOf members name = (omitEmpty name text).map (·.2)) :
    storeField storeString members name "" = some text := by
  rw [omitEmpty] at given
  split at given
  · rename_i isEmpty
    rw [storeField_absent given, isEmpty]
  · exact storeField_textField given

/-- An integer of 64 bits is read as it was written. -/
theorem storeField_intField (low : -2 ^ 63 ≤ number) (high : number < 2 ^ 63)
    (given : valuesOf members name = [.number (intLiteral number)]) :
    storeField storeInt members name 0 = some number := by
  rw [storeField_once given, storeInt, integerOf_intLiteral low high]

section Texts

variable {bytes more : Bytes} {doc : Doc}

/-- The bytes are those of a text. -/
def IsText (bytes : Bytes) : Prop :=
  bytesOf (decodeText bytes) = bytes

theorem isText_bytesOf (text : String) : IsText (bytesOf text) := by
  rw [IsText, decodeText_bytesOf]

theorem IsText.append (first : IsText bytes) (second : IsText more) : IsText (bytes ++ more) := by
  have joined : bytes ++ more = bytesOf (decodeText bytes ++ decodeText more) := by
    rw [bytesOf, String.toList_append, List.flatMap_append]
    exact (congrArg₂ _ first second).symm
  rw [joined]
  exact isText_bytesOf _

theorem isText_quote (text : Bytes) : IsText (quote text) :=
  isText_bytesOf _

theorem isText_printMembers
    (texts : ∀ member ∈ members, IsText member.1 ∧ IsText member.2.print) :
    IsText (printMembers members) := by
  have mark : IsText [0x22] := isText_bytesOf "\""
  have colon : IsText [0x3a] := isText_bytesOf ":"
  have comma : IsText [0x2c] := isText_bytesOf ","
  induction members with
  | nil => exact isText_bytesOf ""
  | cons member rest ih =>
      rw [List.forall_mem_cons] at texts
      have printed : IsText (0x22 :: (member.1 ++ 0x22 :: 0x3a :: member.2.print)) :=
        mark.append (texts.1.1.append (mark.append (colon.append texts.1.2)))
      cases rest with
      | nil => exact printed
      | cons second rest => exact printed.append (comma.append (ih texts.2))

theorem isText_textField (name text : String) : IsText (textField name text).2.print := by
  have mark : IsText [0x22] := isText_bytesOf "\""
  have inner : IsText (quote (bytesOf text)) := isText_quote _
  rw [textField, Doc.print]
  generalize quote (bytesOf text) = bytes at inner
  exact mark.append (inner.append mark)

/-- A document that is a text has no blanks around it. -/
theorem trimSpace_print (readable : Readable room doc) (isText : IsText doc.print) :
    trimSpace (decodeText doc.print) = decodeText doc.print := by
  have same : bytesOf (decodeText doc.print) = doc.print := isText
  apply bytesOf_injective
  rw [← trimBytes_bytesOf, same, trimBytes_print readable]

/-- The fields are texts. -/
def TextFields (fields : List (String × Doc)) : Prop :=
  ∀ field ∈ fields, ∃ text, field = textField field.1 text

theorem textFields_omitEmpty (name text : String) : TextFields (omitEmpty name text) := by
  intro field inside
  rw [omitEmpty] at inside
  split at inside
  · cases inside
  · rw [List.mem_singleton] at inside
    subst inside
    exact ⟨text, rfl⟩

theorem name_of_omitEmpty {name text : String} {field : String × Doc}
    (inside : field ∈ omitEmpty name text) : field.1 = name := by
  rw [omitEmpty] at inside
  split at inside
  · cases inside
  · rw [List.mem_singleton.mp inside, textField]

theorem filter_omitEmpty (name wanted text : String) :
    (omitEmpty name text).filter (·.1 = wanted) = if name = wanted then omitEmpty name text else [] := by
  rw [omitEmpty]
  split
  · simp
  · simp [textField, List.filter_cons]

theorem isText_membersOf (texts : TextFields fields) : IsText (printMembers (membersOf fields)) := by
  apply isText_printMembers
  intro member inside
  rcases List.mem_map.mp inside with ⟨field, isField, rfl⟩
  refine ⟨isText_bytesOf _, ?_⟩
  rcases texts field isField with ⟨text, same⟩
  have printed := isText_textField field.1 text
  rwa [← same] at printed

/-- What is written for a structure of texts is a text that begins with a brace, has no blanks around
it, and is read as the members of the structure. -/
theorem textFields_read (smallNames : SmallNames fields) (texts : TextFields fields) :
    hasPrefix (decodeText (Doc.object (membersOf fields)).print) "\x7b" = true ∧
      trimSpace (decodeText (Doc.object (membersOf fields)).print) =
        decodeText (Doc.object (membersOf fields)).print ∧
        parseDoc maxNestingDepth (bytesOf (decodeText (Doc.object (membersOf fields)).print)) =
          some (.object (membersOf fields)) := by
  have readable : Readable maxNestingDepth (.object (membersOf fields)) := by
    apply @readable_membersOf fields 9999 smallNames
    intro field inside
    rcases texts field inside with ⟨text, isField⟩
    rw [isField]
    exact readable_textField _ _
  have closes : IsText [0x7d] := isText_bytesOf "\x7d"
  have inner := (isText_membersOf texts).append closes
  have whole : (Doc.object (membersOf fields)).print =
      bytesOf ("\x7b" ++ decodeText (printMembers (membersOf fields) ++ [0x7d])) := by
    have same : bytesOf (decodeText (printMembers (membersOf fields) ++ [0x7d])) =
        printMembers (membersOf fields) ++ [0x7d] := inner
    rw [bytesOf, String.toList_append, List.flatMap_append, ← bytesOf, ← bytesOf, same]
    rfl
  have isText : IsText (Doc.object (membersOf fields)).print := by
    rw [whole]
    exact isText_bytesOf _
  refine ⟨?_, trimSpace_print readable isText, ?_⟩
  · rw [whole, decodeText_bytesOf, hasPrefix, String.toList_append]
    simp
  · have same : bytesOf (decodeText (Doc.object (membersOf fields)).print) =
        (Doc.object (membersOf fields)).print := isText
    rw [same]
    exact parseDoc_print readable

theorem ne_empty_of_hasPrefix (begins : hasPrefix text "\x7b" = true) : text ≠ "" := by
  rintro rfl
  exact absurd begins (by decide)

end Texts

end MikroLLM.Go
