import MikroLLM.Go.Decoder
import MikroLLM.Go.Http

/-!
# Codecs over known documents

A codec that reads and writes a list of known documents as they are. Every other
object is written as a code that starts with byte 255, which no text of a
document does, so that what is written can be read.
-/

namespace MikroLLM.Go

/-- Where a code ends is seen from the code. -/
def SelfDelimiting {α : Type} (code : α → List UInt8) : Prop :=
  ∀ left right rest more, code left ++ rest = code right ++ more → left = right ∧ rest = more

section Codes

variable {α β : Type} {code : α → List UInt8}

theorem SelfDelimiting.injective (delimits : SelfDelimiting code) : Function.Injective code := by
  intro left right same
  exact (delimits left right [] [] (by simp [same])).1

/-- A number in unary. -/
def natCode : ℕ → List UInt8
  | 0 => [0]
  | n + 1 => 1 :: natCode n

theorem natCode_selfDelimiting : SelfDelimiting natCode := by
  intro left
  induction left with
  | zero =>
      intro right rest more same
      cases right with
      | zero => simpa [natCode] using same
      | succ right => simp [natCode] at same
  | succ left ih =>
      intro right rest more same
      cases right with
      | zero => simp [natCode] at same
      | succ right =>
          simp only [natCode, List.cons_append, List.cons.injEq, true_and] at same
          rcases ih right rest more same with ⟨rfl, sameRest⟩
          exact ⟨rfl, sameRest⟩

/-- The code of a list, given the code of its items. -/
def listCode (code : α → List UInt8) : List α → List UInt8
  | [] => [0]
  | item :: rest => 1 :: (code item ++ listCode code rest)

theorem listCode_selfDelimiting (delimits : SelfDelimiting code) :
    SelfDelimiting (listCode code) := by
  intro left
  induction left with
  | nil =>
      intro right rest more same
      cases right with
      | nil => simpa [listCode] using same
      | cons item items => simp [listCode] at same
  | cons item items ih =>
      intro right rest more same
      cases right with
      | nil => simp [listCode] at same
      | cons other others =>
          simp only [listCode, List.cons_append, List.cons.injEq, List.append_assoc, true_and]
            at same
          rcases delimits item other _ _ same with ⟨rfl, sameItems⟩
          rcases ih others rest more sameItems with ⟨rfl, sameRest⟩
          exact ⟨rfl, sameRest⟩

/-- The code of a value that a code of another type tells apart. -/
theorem SelfDelimiting.comp (delimits : SelfDelimiting code) {view : β → α}
    (injective : Function.Injective view) : SelfDelimiting fun value => code (view value) := by
  intro left right rest more same
  rcases delimits (view left) (view right) rest more same with ⟨sameView, sameRest⟩
  exact ⟨injective sameView, sameRest⟩

def textCode (text : String) : List UInt8 :=
  listCode (fun char : Char => natCode char.toNat) text.toList

theorem textCode_selfDelimiting : SelfDelimiting textCode := by
  have chars : SelfDelimiting fun char : Char => natCode char.toNat :=
    natCode_selfDelimiting.comp fun _ _ same => Char.ext (UInt32.toNat_inj.mp same)
  exact (listCode_selfDelimiting chars).comp fun _ _ => String.ext

/-- An integer, as the number of a natural number. -/
def intCode : ℤ → List UInt8
  | .ofNat n => 0 :: natCode n
  | .negSucc n => 1 :: natCode n

theorem intCode_selfDelimiting : SelfDelimiting intCode := by
  intro left right rest more same
  rcases left with left | left <;> rcases right with right | right
  · simp only [intCode, List.cons_append, List.cons.injEq, true_and] at same
    rcases natCode_selfDelimiting left right rest more same with ⟨rfl, sameRest⟩
    exact ⟨rfl, sameRest⟩
  · simp [intCode] at same
  · simp [intCode] at same
  · simp only [intCode, List.cons_append, List.cons.injEq, true_and] at same
    rcases natCode_selfDelimiting left right rest more same with ⟨rfl, sameRest⟩
    exact ⟨rfl, sameRest⟩

end Codes

section Values

mutual

def jsonCode : Json → List UInt8
  | .null => [0]
  | .bool false => [1]
  | .bool true => [2]
  | .number literal => 3 :: (intCode literal.mantissa ++ intCode literal.exponent)
  | .string text => 4 :: textCode text
  | .array items => 5 :: itemsCode items
  | .object fields => 6 :: fieldsCode fields

def itemsCode : List Json → List UInt8
  | [] => [0]
  | item :: rest => 1 :: (jsonCode item ++ itemsCode rest)

def fieldsCode : List (String × Json) → List UInt8
  | [] => [0]
  | (key, value) :: rest => 1 :: (textCode key ++ (jsonCode value ++ fieldsCode rest))

end

mutual

theorem jsonCode_selfDelimiting : ∀ left right rest more,
    jsonCode left ++ rest = jsonCode right ++ more → left = right ∧ rest = more
  | .null, right, rest, more, same => by
      rcases right with _ | ⟨_ | _⟩ | _ | _ | _ | _ <;> simp_all [jsonCode]
  | .bool false, right, rest, more, same => by
      rcases right with _ | ⟨_ | _⟩ | _ | _ | _ | _ <;> simp_all [jsonCode]
  | .bool true, right, rest, more, same => by
      rcases right with _ | ⟨_ | _⟩ | _ | _ | _ | _ <;> simp_all [jsonCode]
  | .number literal, right, rest, more, same => by
      rcases right with _ | ⟨_ | _⟩ | other | _ | _ | _ <;> simp [jsonCode] at same
      rcases intCode_selfDelimiting _ _ _ _ same with ⟨sameMantissa, sameRest⟩
      rcases intCode_selfDelimiting _ _ _ _ sameRest with ⟨sameExponent, sameRest⟩
      rcases literal with ⟨mantissa, exponent⟩
      rcases other with ⟨otherMantissa, otherExponent⟩
      simp_all
  | .string text, right, rest, more, same => by
      rcases right with _ | ⟨_ | _⟩ | _ | other | _ | _ <;> simp [jsonCode] at same
      rcases textCode_selfDelimiting _ _ _ _ same with ⟨rfl, sameRest⟩
      exact ⟨rfl, sameRest⟩
  | .array items, right, rest, more, same => by
      rcases right with _ | ⟨_ | _⟩ | _ | _ | others | _ <;> simp [jsonCode] at same
      rcases itemsCode_selfDelimiting items others rest more same with ⟨rfl, sameRest⟩
      exact ⟨rfl, sameRest⟩
  | .object fields, right, rest, more, same => by
      rcases right with _ | ⟨_ | _⟩ | _ | _ | _ | others <;> simp [jsonCode] at same
      rcases fieldsCode_selfDelimiting fields others rest more same with ⟨rfl, sameRest⟩
      exact ⟨rfl, sameRest⟩

theorem itemsCode_selfDelimiting : ∀ left right rest more,
    itemsCode left ++ rest = itemsCode right ++ more → left = right ∧ rest = more
  | [], right, rest, more, same => by
      cases right <;> simp_all [itemsCode]
  | item :: items, right, rest, more, same => by
      rcases right with _ | ⟨other, others⟩ <;> simp [itemsCode] at same
      rcases jsonCode_selfDelimiting item other _ _ same with ⟨rfl, sameItems⟩
      rcases itemsCode_selfDelimiting items others rest more sameItems with ⟨rfl, sameRest⟩
      exact ⟨rfl, sameRest⟩

theorem fieldsCode_selfDelimiting : ∀ left right rest more,
    fieldsCode left ++ rest = fieldsCode right ++ more → left = right ∧ rest = more
  | [], right, rest, more, same => by
      cases right <;> simp_all [fieldsCode]
  | (key, value) :: fields, right, rest, more, same => by
      rcases right with _ | ⟨⟨other, last⟩, others⟩ <;> simp [fieldsCode] at same
      rcases textCode_selfDelimiting key other _ _ same with ⟨rfl, sameValue⟩
      rcases jsonCode_selfDelimiting value last _ _ sameValue with ⟨rfl, sameFields⟩
      rcases fieldsCode_selfDelimiting fields others rest more sameFields with ⟨rfl, sameRest⟩
      exact ⟨rfl, sameRest⟩

end

end Values

/-- Documents with their bytes. -/
structure Documents where
  list : List (List UInt8 × Body)
  distinct : (list.map (·.1)).Nodup
  texts : ∀ entry ∈ list, entry.1.head? ≠ some 255

namespace Documents

variable (documents : Documents)

def write (fields : Fields) : List UInt8 :=
  match documents.list.find? (·.2 = encode fields) with
  | some entry => entry.1
  | none => 255 :: fieldsCode fields

open Classical in
/-- What a code was made of. -/
noncomputable def readCode (bytes : List UInt8) : Body :=
  if known : ∃ fields, documents.write fields = bytes then encode known.choose else .text ""

/-- The bytes that are no known document are no document. -/
noncomputable def read (bytes : List UInt8) : Body :=
  if bytes.head? = some 255 then documents.readCode bytes
  else
    match documents.list.find? (·.1 = bytes) with
    | some entry => entry.2
    | none => .text ""

theorem write_cases (fields : Fields) :
    (documents.write fields, encode fields) ∈ documents.list ∨
      documents.write fields = 255 :: fieldsCode fields := by
  unfold write
  split
  · rename_i entry found
    have same : entry.2 = encode fields := by simpa using List.find?_some found
    rw [← same]
    exact Or.inl (List.mem_of_find?_eq_some found)
  · exact Or.inr rfl

variable {documents}

theorem write_coded {fields other : Fields}
    (coded : documents.write fields = 255 :: fieldsCode other) : fields = other := by
  rcases documents.write_cases fields with known | same
  · exact absurd (documents.texts _ known) (by simp [coded])
  · rw [coded, List.cons.injEq] at same
    exact (SelfDelimiting.injective fieldsCode_selfDelimiting same.2).symm

theorem read_write (fields : Fields) : documents.read (documents.write fields) = encode fields := by
  unfold read
  rcases documents.write_cases fields with known | coded
  · rw [if_neg (documents.texts _ known)]
    split
    · rename_i entry found
      have sameBytes : entry.1 = documents.write fields := by simpa using List.find?_some found
      have same := List.inj_on_of_nodup_map documents.distinct (List.mem_of_find?_eq_some found)
        known sameBytes
      rw [same]
    · rename_i missing
      have never := List.find?_eq_none.mp missing _ known
      simp at never
  · rw [coded]
    have written : ∃ other, documents.write other = 255 :: fieldsCode fields := ⟨fields, coded⟩
    simp only [List.head?_cons, if_true, readCode, dif_pos written]
    rw [write_coded written.choose_spec]

/-- A known document is read as what it is. -/
theorem read_of_mem {bytes : List UInt8} {body : Body} (known : (bytes, body) ∈ documents.list) :
    documents.read bytes = body := by
  rw [read, if_neg (documents.texts _ known)]
  split
  · rename_i entry found
    have sameBytes : entry.1 = bytes := by simpa using List.find?_some found
    have same := List.inj_on_of_nodup_map documents.distinct (List.mem_of_find?_eq_some found)
      known sameBytes
    rw [same]
  · rename_i missing
    have never := List.find?_eq_none.mp missing _ known
    simp at never

end Documents

/-- The codec of known documents. A text is ASCII. -/
noncomputable def knownCodec (documents : Documents) : Codec where
  parse := documents.read
  marshal := documents.write
  text bytes := String.ofList (bytes.map fun byte => Char.ofNat byte.toNat)
  parse_marshal fields self :=
    ⟨fields, fields, Documents.read_write fields, WrittenAs.refl self, self, fun _ => rfl⟩

/-- The same codec with its `Decoder`, which sees what `Unmarshal` sees. -/
noncomputable def knownNumberCodec (documents : Documents) : NumberCodec where
  toCodec := knownCodec documents
  first bytes :=
    match (knownCodec documents).parse bytes with
    | .json (document :: _) => some document
    | _ => none
  first_json parsed := by rw [parsed]
  first_nothing parsed := by rw [parsed]
  parse_kept fields _ := ⟨fields, Documents.read_write fields, fun _ => rfl⟩
  exists_text fields := ⟨_, Documents.read_write fields⟩

end MikroLLM.Go
