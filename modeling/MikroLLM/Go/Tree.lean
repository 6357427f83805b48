import Mathlib.Algebra.Field.Rat
import MikroLLM.Go.Json

/-!
# Places in a value

What a value says, place by place: a path of keys and positions leads to a place,
and the face of a value is what is seen there without looking further in. Two
values that have the same face at every place say the same, in whatever order the
members of an object are and however a number is written.
-/

namespace MikroLLM.Go

/-- The number that a literal stands for. -/
def Decimal.value (literal : Decimal) : ℚ :=
  literal.mantissa * 10 ^ literal.exponent

/-- Decoding into an interface value and encoding leave the number what it is. -/
def Decimal.exact (literal : Decimal) : Prop :=
  ∀ written, readBack literal = some written → written.value = literal.value

/-- One step into a value. -/
inductive Step
  | key (name : String)
  | index (position : ℕ)
  deriving DecidableEq, Repr

abbrev Path := List Step

def Json.child : Json → Step → Option Json
  | .object fields, .key name => fieldOf fields name
  | .array items, .index position => items[position]?
  | _, _ => none

/-- The value that a path leads to. -/
def Json.valueAt : Json → Path → Option Json
  | value, [] => some value
  | value, step :: rest => (value.child step).bind (·.valueAt rest)

/-- A value without what is in it. -/
inductive Face
  | null
  | bool (value : Bool)
  | number (value : ℚ)
  | string (text : String)
  | array (length : ℕ)
  | object
  deriving DecidableEq

def Json.face : Json → Face
  | .null => .null
  | .bool value => .bool value
  | .number literal => .number literal.value
  | .string text => .string text
  | .array items => .array items.length
  | .object _ => .object

def Json.faceAt (value : Json) (path : Path) : Option Face :=
  (value.valueAt path).map Json.face

/-- Two values that say the same, in whatever order and however it is written. -/
def Alike (left right : Json) : Prop :=
  ∀ path, left.faceAt path = right.faceAt path

/-- A face that leaves open which number is there. -/
def Face.vague : Face → Face
  | .number _ => .number 0
  | face => face

/-- Two values that differ at most in their numbers. -/
def Resembles (left right : Json) : Prop :=
  ∀ path, (left.faceAt path).map Face.vague = (right.faceAt path).map Face.vague

section Places

variable {value loaded : Json} {path : Path} {text : String}

@[simp]
theorem valueAt_nil (value : Json) : value.valueAt [] = some value :=
  rfl

@[simp]
theorem faceAt_nil (value : Json) : value.faceAt [] = some value.face :=
  rfl

theorem valueAt_cons (value : Json) (step : Step) (rest : Path) :
    value.valueAt (step :: rest) = (value.child step).bind (·.valueAt rest) :=
  rfl

theorem faceAt_cons (value : Json) (step : Step) (rest : Path) :
    value.faceAt (step :: rest) = (value.child step).bind (·.faceAt rest) := by
  simp only [Json.faceAt, valueAt_cons]
  cases value.child step <;> rfl

theorem faceAt_key (fields : Fields) (name : String) (rest : Path) :
    (Json.object fields).faceAt (.key name :: rest) =
      (fieldOf fields name).bind (·.faceAt rest) :=
  faceAt_cons _ _ _

theorem faceAt_index (items : List Json) (position : ℕ) (rest : Path) :
    (Json.array items).faceAt (.index position :: rest) =
      items[position]?.bind (·.faceAt rest) :=
  faceAt_cons _ _ _

/-- Only objects have members, only arrays have items. -/
theorem faceAt_string (text : String) (step : Step) (rest : Path) :
    (Json.string text).faceAt (step :: rest) = none := by
  rw [faceAt_cons]
  cases step <;> rfl

theorem face_eq_string : value.face = .string text ↔ value = .string text := by
  cases value <;> simp [Json.face]

theorem faceAt_eq_string :
    value.faceAt path = some (.string text) ↔ value.valueAt path = some (.string text) := by
  simp [Json.faceAt, face_eq_string]

theorem faceAt_eq_none_iff : value.faceAt path = none ↔ value.valueAt path = none := by
  rw [Json.faceAt, Option.map_eq_none_iff]

theorem faceAt_setField_self (fields : Fields) (key : String) (next : Json) (rest : Path) :
    (Json.object (setField fields key next)).faceAt (.key key :: rest) = next.faceAt rest := by
  simp [faceAt_key]

theorem faceAt_setField_ne {key other : String} (differs : other ≠ key) (fields : Fields)
    (next : Json) (rest : Path) :
    (Json.object (setField fields key next)).faceAt (.key other :: rest) =
      (Json.object fields).faceAt (.key other :: rest) := by
  simp [faceAt_key, fieldOf_setField_ne fields next differs]

end Places

section Loading

variable {value loaded : Json} {path : Path}

theorem load_object {document raw : Fields} (loads : loadFields document = some raw) :
    (Json.object document).load = some (.object raw) := by
  rw [Json.load, loads]
  rfl

theorem getElem?_loadItems {items values : List Json} (loads : loadItems items = some values)
    (position : ℕ) : values[position]? = items[position]?.bind Json.load := by
  induction items generalizing values position with
  | nil =>
      cases loads
      rfl
  | cons item rest ih =>
      simp only [loadItems, Option.bind_eq_bind, Option.bind_eq_some_iff,
        Option.some.injEq] at loads
      rcases loads with ⟨head, headLoads, tail, tailLoads, rfl⟩
      cases position with
      | zero => simp [headLoads]
      | succ position => simpa using ih tailLoads position

theorem length_loadItems {items values : List Json} (loads : loadItems items = some values) :
    values.length = items.length := by
  induction items generalizing values with
  | nil =>
      cases loads
      rfl
  | cons item rest ih =>
      simp only [loadItems, Option.bind_eq_bind, Option.bind_eq_some_iff,
        Option.some.injEq] at loads
      rcases loads with ⟨head, _, tail, tailLoads, rfl⟩
      simp [ih tailLoads]

theorem loads_of_getElem? {items values : List Json} {position : ℕ} {item : Json}
    (loads : loadItems items = some values) (found : items[position]? = some item) :
    ∃ written, item.load = some written := by
  have same := getElem?_loadItems loads position
  rw [found, Option.bind_some] at same
  have inside : position < values.length := by
    rw [length_loadItems loads]
    exact (List.getElem?_eq_some_iff.mp found).1
  rw [List.getElem?_eq_getElem inside] at same
  exact ⟨_, same.symm⟩

theorem child_load (loads : value.load = some loaded) (step : Step) :
    loaded.child step = (value.child step).bind Json.load := by
  cases value with
  | array items =>
      simp only [Json.load, Option.map_eq_some_iff] at loads
      rcases loads with ⟨values, itemsLoad, rfl⟩
      cases step with
      | key name => rfl
      | index position => exact getElem?_loadItems itemsLoad position
  | object fields =>
      simp only [Json.load, Option.map_eq_some_iff] at loads
      rcases loads with ⟨values, fieldsLoad, rfl⟩
      cases step with
      | key name => exact fieldOf_loadFields fieldsLoad name
      | index position => rfl
  | number literal =>
      simp only [Json.load, Option.map_eq_some_iff] at loads
      rcases loads with ⟨written, _, rfl⟩
      rfl
  | null | bool _ | string _ =>
      cases loads
      rfl

theorem loads_of_child {step : Step} {inner : Json} (loads : value.load = some loaded)
    (found : value.child step = some inner) : ∃ written, inner.load = some written := by
  cases value with
  | array items =>
      simp only [Json.load, Option.map_eq_some_iff] at loads
      rcases loads with ⟨values, itemsLoad, _⟩
      cases step with
      | key name => cases found
      | index position => exact loads_of_getElem? itemsLoad found
  | object fields =>
      simp only [Json.load, Option.map_eq_some_iff] at loads
      rcases loads with ⟨values, fieldsLoad, _⟩
      cases step with
      | key name => exact loads_of_fieldOf fieldsLoad found
      | index position => cases found
  | null | bool _ | string _ | number _ => cases found

/-- What was decoded is at every place what was there, decoded. -/
theorem valueAt_load (loads : value.load = some loaded) (path : Path) :
    loaded.valueAt path = (value.valueAt path).bind Json.load := by
  induction path generalizing value loaded with
  | nil => exact loads.symm
  | cons step rest ih =>
      rw [valueAt_cons, valueAt_cons, child_load loads step]
      cases found : value.child step with
      | none => rfl
      | some inner =>
          rcases loads_of_child loads found with ⟨written, innerLoads⟩
          rw [Option.bind_some, Option.bind_some, innerLoads, Option.bind_some]
          exact ih innerLoads

theorem loads_of_valueAt {inner : Json} (loads : value.load = some loaded)
    (found : value.valueAt path = some inner) : ∃ written, inner.load = some written := by
  induction path generalizing value loaded with
  | nil =>
      cases found
      exact ⟨loaded, loads⟩
  | cons step rest ih =>
      rw [valueAt_cons, Option.bind_eq_some_iff] at found
      rcases found with ⟨child, childFound, found⟩
      rcases loads_of_child loads childFound with ⟨written, childLoads⟩
      exact ih childLoads found

/-- Decoding does not change anything but numbers. -/
theorem face_load (loads : value.load = some loaded)
    (other : ∀ literal, value ≠ .number literal) : loaded.face = value.face := by
  cases value with
  | number literal => exact absurd rfl (other literal)
  | array items =>
      simp only [Json.load, Option.map_eq_some_iff] at loads
      rcases loads with ⟨values, itemsLoad, rfl⟩
      simp [Json.face, length_loadItems itemsLoad]
  | object fields =>
      simp only [Json.load, Option.map_eq_some_iff] at loads
      rcases loads with ⟨values, _, rfl⟩
      rfl
  | null | bool _ | string _ =>
      cases loads
      rfl

/-- A place keeps its face exactly if it has no number or one that decoding leaves what it is. -/
theorem faceAt_load (loads : value.load = some loaded) (path : Path) :
    loaded.faceAt path = value.faceAt path ↔
      ∀ literal, value.valueAt path = some (.number literal) → literal.exact := by
  rw [Json.faceAt, Json.faceAt, valueAt_load loads path]
  cases found : value.valueAt path with
  | none => simp
  | some inner =>
      rcases loads_of_valueAt loads found with ⟨written, innerLoads⟩
      rw [Option.bind_some, innerLoads, Option.map_some, Option.map_some, Option.some.injEq]
      by_cases number : ∃ literal, inner = .number literal
      · rcases number with ⟨literal, rfl⟩
        simp only [Json.load, Option.map_eq_some_iff] at innerLoads
        rcases innerLoads with ⟨decimal, reads, rfl⟩
        simp [Json.face, Decimal.exact, reads]
      · rw [not_exists] at number
        rw [face_load innerLoads number]
        simp [number]

/-- A place without a number is the same before decoding and after it. -/
theorem faceAt_load_string (loads : value.load = some loaded) (path : Path) (text : String) :
    loaded.faceAt path = some (.string text) ↔ value.faceAt path = some (.string text) := by
  rw [faceAt_eq_string, faceAt_eq_string, valueAt_load loads path, Option.bind_eq_some_iff]
  constructor
  · rintro ⟨inner, found, innerLoads⟩
    cases inner with
    | string other =>
        cases innerLoads
        exact found
    | null | bool _ => cases innerLoads
    | number _ | array _ | object _ =>
        simp only [Json.load, Option.map_eq_some_iff] at innerLoads
        rcases innerLoads with ⟨_, _, same⟩
        cases same
  · intro found
    exact ⟨_, found, rfl⟩

theorem resembles_load (loads : value.load = some loaded) : Resembles loaded value := by
  intro path
  rw [Json.faceAt, Json.faceAt, valueAt_load loads path]
  cases found : value.valueAt path with
  | none => rfl
  | some inner =>
      rcases loads_of_valueAt loads found with ⟨written, innerLoads⟩
      rw [Option.bind_some, innerLoads]
      cases inner with
      | number literal =>
          simp only [Json.load, Option.map_eq_some_iff] at innerLoads
          rcases innerLoads with ⟨decimal, _, rfl⟩
          rfl
      | null | bool _ | string _ | array _ | object _ =>
          exact congrArg (fun face => some face.vague) (face_load innerLoads (by simp))

end Loading

section Resembling

variable {left right : Json} {path : Path} {face : Face}

theorem Alike.resembles (alike : Alike left right) : Resembles left right :=
  fun path => congrArg _ (alike path)

theorem Resembles.none_iff (resembles : Resembles left right) :
    left.faceAt path = none ↔ right.faceAt path = none := by
  have same := resembles path
  rw [← Option.map_eq_none_iff, same, Option.map_eq_none_iff]

theorem Face.vague_eq_iff {other : Face} (known : ∀ value, other ≠ .number value) :
    face.vague = other ↔ face = other := by
  cases face with
  | number value =>
      refine iff_of_false ?_ (fun same => known value same.symm)
      exact fun same => known 0 same.symm
  | null | bool _ | string _ | array _ | object => rfl

theorem Resembles.face_iff (resembles : Resembles left right)
    (known : ∀ value, face ≠ .number value) :
    left.faceAt path = some face ↔ right.faceAt path = some face := by
  have vague (value : Json) : (value.faceAt path).map Face.vague = some face ↔
      value.faceAt path = some face := by
    simp [Option.map_eq_some_iff, Face.vague_eq_iff known]
  rw [← vague, resembles path, vague]

end Resembling

end MikroLLM.Go
