import Mathlib.Data.List.Nodup
import MikroLLM.Go.Number

/-!
# Package `encoding/json`

Values, the bodies that hold them, and the functions of the package that the
gateway uses. A value is what a document says and also what `Unmarshal` makes of
it: an object of a document may repeat a key and may hold a number of any size,
`load` keeps the last of the repeated keys and turns numbers into `float64`.
-/

namespace MikroLLM.Go

/-- A value, of a document or in memory. -/
inductive Json
  | null
  | bool (value : Bool)
  | number (literal : Decimal)
  | string (text : String)
  | array (items : List Json)
  | object (fields : List (String × Json))
  deriving Repr

/-- The members of an object, a `map[string]any` in memory. -/
abbrev Fields := List (String × Json)

mutual

/-- The value that `Unmarshal` stores in an `any`; none where it reports an error. -/
def Json.load : Json → Option Json
  | .null => some .null
  | .bool value => some (.bool value)
  | .number literal => (readBack literal).map .number
  | .string text => some (.string text)
  | .array items => (loadItems items).map .array
  | .object fields => (loadFields fields).map .object

def loadItems : List Json → Option (List Json)
  | [] => some []
  | item :: rest => do
      let value ← item.load
      let values ← loadItems rest
      some (value :: values)

/-- The last of the members with one key is the one that counts. -/
def loadFields : List (String × Json) → Option (List (String × Json))
  | [] => some []
  | (key, member) :: rest => do
      let value ← member.load
      let values ← loadFields rest
      some (if key ∈ values.map Prod.fst then values else (key, value) :: values)

end

section Equality

mutual

def Json.same : Json → Json → Bool
  | .null, .null => true
  | .bool left, .bool right => left == right
  | .number left, .number right => left = right
  | .string left, .string right => left == right
  | .array left, .array right => sameItems left right
  | .object left, .object right => sameFields left right
  | _, _ => false

def sameItems : List Json → List Json → Bool
  | [], [] => true
  | left :: lefts, right :: rights => left.same right && sameItems lefts rights
  | _, _ => false

def sameFields : List (String × Json) → List (String × Json) → Bool
  | [], [] => true
  | (key, left) :: lefts, (other, right) :: rights =>
      key == other && (left.same right && sameFields lefts rights)
  | _, _ => false

end

mutual

theorem Json.same_iff : ∀ left right : Json, left.same right = true ↔ left = right
  | .null, right => by cases right <;> simp [Json.same]
  | .bool _, right => by cases right <;> simp [Json.same]
  | .number _, right => by cases right <;> simp [Json.same]
  | .string _, right => by cases right <;> simp [Json.same]
  | .array items, right => by cases right <;> simp [Json.same, sameItems_iff items]
  | .object fields, right => by cases right <;> simp [Json.same, sameFields_iff fields]

theorem sameItems_iff : ∀ left right : List Json, sameItems left right = true ↔ left = right
  | [], right => by cases right <;> simp [sameItems]
  | item :: rest, right => by
      cases right <;> simp [sameItems, Json.same_iff item, sameItems_iff rest]

theorem sameFields_iff :
    ∀ left right : List (String × Json), sameFields left right = true ↔ left = right
  | [], right => by cases right <;> simp [sameFields]
  | (key, value) :: rest, right => by
      rcases right with _ | ⟨⟨other, last⟩, rights⟩
      · simp [sameFields]
      · simp [sameFields, Json.same_iff value, sameFields_iff rest, and_assoc]

end

instance : DecidableEq Json :=
  fun left right => decidable_of_iff (left.same right = true) (Json.same_iff left right)

end Equality

/-- The value under a key; in a document the last one. -/
def fieldOf : Fields → String → Option Json
  | [], _ => none
  | (key, value) :: rest, wanted =>
      (fieldOf rest wanted).or (if key = wanted then some value else none)

/-- `fields[key]` as a value of type `any`, nil where there is none. -/
def field (fields : Fields) (key : String) : Json :=
  (fieldOf fields key).getD .null

/-- `fields[key] = value`. -/
def setField : Fields → String → Json → Fields
  | [], wanted, next => [(wanted, next)]
  | (key, value) :: rest, wanted, next =>
      if key = wanted then (wanted, next) :: rest.filter fun member => !decide (member.1 = wanted)
      else (key, value) :: setField rest wanted next

/-- A body of a request or of a response: JSON documents one after another, or anything else. -/
inductive Body
  | json (documents : List Json)
  | text (content : String)
  deriving DecidableEq, Repr

/-- `Unmarshal` into a `map[string]any` that has to be an object. -/
def decode : Body → Option Fields
  | .json [.object fields] => loadFields fields
  | _ => none

/-- `Marshal` of a `map[string]any`. -/
def encode (fields : Fields) : Body :=
  .json [.object fields]

section Fields

variable {fields : Fields} {key other : String} {value : Json}

attribute [local simp] fieldOf setField

theorem fieldOf_filter_self (fields : Fields) (key : String) :
    fieldOf (fields.filter fun member => !decide (member.1 = key)) key = none := by
  induction fields with
  | nil => rfl
  | cons member rest ih =>
      rcases member with ⟨first, value⟩
      by_cases same : first = key
      · simpa [same] using ih
      · simpa [same] using ih

theorem fieldOf_filter_ne (fields : Fields) (differs : other ≠ key) :
    fieldOf (fields.filter fun member => !decide (member.1 = key)) other =
      fieldOf fields other := by
  induction fields with
  | nil => rfl
  | cons member rest ih =>
      rcases member with ⟨first, value⟩
      by_cases same : first = key
      · simpa [same, Ne.symm differs] using ih
      · simp [same, ih]

@[simp]
theorem fieldOf_setField_self (fields : Fields) (key : String) (value : Json) :
    fieldOf (setField fields key value) key = some value := by
  induction fields with
  | nil => simp
  | cons member rest ih =>
      rcases member with ⟨first, old⟩
      by_cases same : first = key
      · simp only [setField, same, if_true, fieldOf]
        rw [fieldOf_filter_self]
        rfl
      · simp [same, ih]

theorem fieldOf_setField_ne (fields : Fields) (value : Json) (differs : other ≠ key) :
    fieldOf (setField fields key value) other = fieldOf fields other := by
  induction fields with
  | nil => simp [Ne.symm differs]
  | cons member rest ih =>
      rcases member with ⟨first, old⟩
      by_cases same : first = key
      · simp only [setField, same, if_true, fieldOf]
        rw [fieldOf_filter_ne rest differs]
        simp [Ne.symm differs]
      · simp [same, ih]

@[simp]
theorem field_setField_self (fields : Fields) (key : String) (value : Json) :
    field (setField fields key value) key = value := by
  simp [field]

theorem field_setField_ne (fields : Fields) (value : Json) (differs : other ≠ key) :
    field (setField fields key value) other = field fields other := by
  simp [field, fieldOf_setField_ne fields value differs]

theorem mem_of_fieldOf (found : fieldOf fields key = some value) : (key, value) ∈ fields := by
  induction fields with
  | nil => cases found
  | cons member rest ih =>
      rcases member with ⟨first, old⟩
      simp only [fieldOf, Option.or_eq_some_iff] at found
      rcases found with later | ⟨_, here⟩
      · apply List.mem_cons_of_mem
        exact ih later
      · split at here
        · simp_all
        · cases here

end Fields

section Loading

variable {fields loaded : Fields} {items : List Json} {key : String} {value written : Json}

attribute [local simp] Json.load loadItems loadFields fieldOf setField

theorem loadFields_cons {first : String} {member : Json} {rest : Fields}
    (loads : loadFields ((first, member) :: rest) = some loaded) :
    ∃ head tail, member.load = some head ∧ loadFields rest = some tail ∧
      loaded = if first ∈ tail.map Prod.fst then tail else (first, head) :: tail := by
  simp only [loadFields, Option.bind_eq_bind, Option.bind_eq_some_iff, Option.some.injEq] at loads
  rcases loads with ⟨head, headLoads, tail, tailLoads, result⟩
  exact ⟨head, tail, headLoads, tailLoads, result.symm⟩

theorem length_le_of_loadFields (loads : loadFields fields = some loaded) :
    loaded.length ≤ fields.length := by
  induction fields generalizing loaded with
  | nil =>
      cases loads
      simp
  | cons member rest ih =>
      rcases member with ⟨first, value⟩
      rcases loadFields_cons loads with ⟨head, tail, _, tailLoads, rfl⟩
      have shorter := ih tailLoads
      split
      · simp only [List.length_cons]
        omega
      · simp only [List.length_cons]
        omega

theorem loadItems_self :
    loadItems items = some items ↔ ∀ item ∈ items, item.load = some item := by
  induction items with
  | nil => simp
  | cons item rest ih =>
      simp only [loadItems, Option.bind_eq_bind, Option.bind_eq_some_iff, Option.some.injEq,
        List.cons.injEq, List.forall_mem_cons]
      rw [← ih]
      constructor
      · rintro ⟨value, loads, values, restLoads, rfl, rfl⟩
        exact ⟨loads, restLoads⟩
      · rintro ⟨loads, restLoads⟩
        exact ⟨item, loads, rest, restLoads, rfl, rfl⟩

/-- A map that `Unmarshal` can have made: no key twice, and nothing in it that reading back
would change. -/
theorem loadFields_self :
    loadFields fields = some fields ↔
      (fields.map Prod.fst).Nodup ∧ ∀ member ∈ fields, member.2.load = some member.2 := by
  induction fields with
  | nil => simp
  | cons member rest ih =>
      rcases member with ⟨first, value⟩
      rw [List.map_cons, List.nodup_cons, List.forall_mem_cons]
      constructor
      · intro loads
        rcases loadFields_cons loads with ⟨head, tail, headLoads, tailLoads, result⟩
        have shorter := length_le_of_loadFields tailLoads
        split at result
        · have lengths := congrArg List.length result
          simp only [List.length_cons] at lengths
          omega
        · rename_i fresh
          simp only [List.cons.injEq, Prod.mk.injEq, true_and] at result
          rcases result with ⟨rfl, rfl⟩
          have restFacts := ih.mp tailLoads
          exact ⟨⟨fresh, restFacts.1⟩, headLoads, restFacts.2⟩
      · rintro ⟨⟨fresh, nodup⟩, headLoads, restLoads⟩
        have tailLoads := ih.mpr ⟨nodup, restLoads⟩
        simp only [loadFields, headLoads, tailLoads, Option.bind_eq_bind, Option.bind_some]
        rw [if_neg fresh]

theorem load_array_self :
    (Json.array items).load = some (.array items) ↔ ∀ item ∈ items, item.load = some item := by
  rw [← loadItems_self]
  simp

theorem load_object_self :
    (Json.object fields).load = some (.object fields) ↔ loadFields fields = some fields := by
  simp

mutual

theorem load_load : ∀ {value written : Json}, value.load = some written →
    written.load = some written
  | .null, _, loads => by cases loads; rfl
  | .bool _, _, loads => by cases loads; rfl
  | .string _, _, loads => by cases loads; rfl
  | .number literal, written, loads => by
      simp only [Json.load, Option.map_eq_some_iff] at loads
      rcases loads with ⟨decimal, reads, rfl⟩
      simp [readBack_readBack reads]
  | .array items, written, loads => by
      simp only [Json.load, Option.map_eq_some_iff] at loads
      rcases loads with ⟨values, itemsLoad, rfl⟩
      exact load_array_self.mpr (loadItems_self.mp (loadItems_loadItems itemsLoad))
  | .object fields, written, loads => by
      simp only [Json.load, Option.map_eq_some_iff] at loads
      rcases loads with ⟨values, fieldsLoad, rfl⟩
      exact load_object_self.mpr (loadFields_loadFields fieldsLoad)

theorem loadItems_loadItems : ∀ {items values : List Json}, loadItems items = some values →
    loadItems values = some values
  | [], _, loads => by cases loads; rfl
  | item :: rest, values, loads => by
      simp only [loadItems, Option.bind_eq_bind, Option.bind_eq_some_iff,
        Option.some.injEq] at loads
      rcases loads with ⟨head, headLoads, tail, tailLoads, rfl⟩
      rw [loadItems_self, List.forall_mem_cons]
      exact ⟨load_load headLoads, loadItems_self.mp (loadItems_loadItems tailLoads)⟩

theorem loadFields_loadFields : ∀ {fields loaded : List (String × Json)},
    loadFields fields = some loaded → loadFields loaded = some loaded
  | [], _, loads => by cases loads; rfl
  | (first, member) :: rest, loaded, loads => by
      rcases loadFields_cons loads with ⟨head, tail, headLoads, tailLoads, rfl⟩
      have tailSelf := loadFields_loadFields tailLoads
      split
      · exact tailSelf
      · rename_i fresh
        rcases loadFields_self.mp tailSelf with ⟨nodup, members⟩
        rw [loadFields_self, List.map_cons, List.nodup_cons, List.forall_mem_cons]
        exact ⟨⟨fresh, nodup⟩, load_load headLoads, members⟩

end

theorem decode_self {body : Body} (decodes : decode body = some fields) :
    loadFields fields = some fields := by
  simp only [decode] at decodes
  split at decodes
  · exact loadFields_loadFields decodes
  · cases decodes

theorem decode_encode (self : loadFields fields = some fields) :
    decode (encode fields) = some fields :=
  self

theorem fieldOf_eq_none_iff : fieldOf fields key = none ↔ key ∉ fields.map Prod.fst := by
  induction fields with
  | nil => simp
  | cons member rest ih =>
      rcases member with ⟨first, value⟩
      rw [List.map_cons, List.mem_cons, not_or, ← ih]
      by_cases same : first = key
      · simp [same]
      · simp [same, Ne.symm same]

theorem loads_of_fieldOf (loads : loadFields fields = some loaded)
    (found : fieldOf fields key = some value) : ∃ written, value.load = some written := by
  have member := mem_of_fieldOf found
  clear found
  induction fields generalizing loaded with
  | nil => cases member
  | cons first rest ih =>
      rcases loadFields_cons loads with ⟨head, tail, headLoads, tailLoads, _⟩
      rcases List.mem_cons.mp member with same | later
      · refine ⟨head, ?_⟩
        rw [← headLoads, ← same]
      · exact ih tailLoads later

/-- What a document says under a key is what the map holds there. -/
theorem fieldOf_loadFields (loads : loadFields fields = some loaded) (key : String) :
    fieldOf loaded key = (fieldOf fields key).bind Json.load := by
  induction fields generalizing loaded with
  | nil =>
      cases loads
      rfl
  | cons member rest ih =>
      rcases member with ⟨first, value⟩
      rcases loadFields_cons loads with ⟨head, tail, headLoads, tailLoads, rfl⟩
      have tailField := ih tailLoads
      cases later : fieldOf rest key with
      | some last =>
          rcases loads_of_fieldOf tailLoads later with ⟨written, writes⟩
          have tailFound : fieldOf tail key = some written := by
            rw [tailField, later, Option.bind_some, writes]
          split
          · simp [later, tailFound, writes]
          · simp [later, tailFound, writes]
      | none =>
          have tailMissing : fieldOf tail key = none := by
            rw [tailField, later, Option.bind_none]
          by_cases same : first = key
          · have fresh : first ∉ tail.map Prod.fst := by
              rw [same]
              exact fieldOf_eq_none_iff.mp tailMissing
            rw [if_neg fresh]
            simp [later, tailMissing, same, headLoads]
          · split
            · simp [later, tailMissing, same]
            · simp [later, tailMissing, same]

theorem mem_setField {member : String × Json} (inside : member ∈ setField fields key value) :
    member = (key, value) ∨ member ∈ fields := by
  induction fields with
  | nil =>
      left
      simpa using inside
  | cons first rest ih =>
      rcases first with ⟨firstKey, old⟩
      by_cases same : firstKey = key
      · simp only [setField, same, if_true, List.mem_cons, List.mem_filter] at inside
        rcases inside with rfl | later
        · left
          rfl
        · right
          exact List.mem_cons_of_mem _ later.1
      · simp only [setField, same, if_false, List.mem_cons] at inside
        rcases inside with rfl | later
        · right
          exact List.mem_cons_self
        · rcases ih later with rfl | before
          · left
            rfl
          · right
            exact List.mem_cons_of_mem _ before

theorem nodup_setField (nodup : (fields.map Prod.fst).Nodup) :
    ((setField fields key value).map Prod.fst).Nodup := by
  induction fields with
  | nil => simp
  | cons first rest ih =>
      rcases first with ⟨firstKey, old⟩
      rw [List.map_cons, List.nodup_cons] at nodup
      by_cases same : firstKey = key
      · simp only [setField, same, if_true, List.map_cons, List.nodup_cons]
        constructor
        · simp
        · exact nodup.2.sublist (List.filter_sublist.map Prod.fst)
      · simp only [setField, same, if_false, List.map_cons, List.nodup_cons]
        refine ⟨?_, ih nodup.2⟩
        intro inside
        rcases List.mem_map.mp inside with ⟨member, memberIn, rfl⟩
        rcases mem_setField memberIn with rfl | before
        · exact same rfl
        · exact nodup.1 (List.mem_map.mpr ⟨member, before, rfl⟩)

/-- A map stays one that `Unmarshal` can have made. -/
theorem loadFields_setField (self : loadFields fields = some fields)
    (valueSelf : value.load = some value) :
    loadFields (setField fields key value) = some (setField fields key value) := by
  rw [loadFields_self] at self ⊢
  refine ⟨nodup_setField self.1, ?_⟩
  intro member inside
  rcases mem_setField inside with rfl | before
  · exact valueSelf
  · exact self.2 member before

theorem load_field (self : loadFields fields = some fields) (key : String) :
    (field fields key).load = some (field fields key) := by
  rw [field]
  cases found : fieldOf fields key with
  | none => rfl
  | some value => exact (loadFields_self.mp self).2 _ (mem_of_fieldOf found)

end Loading

end MikroLLM.Go
