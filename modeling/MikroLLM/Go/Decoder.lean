import MikroLLM.Go.Bodies

/-!
# `Decoder` with `UseNumber`

A `json.Decoder` reads the first document of a body and leaves what follows it. With
`UseNumber` a number stays the literal that it is, so that of a document only the
members whose key comes again later are lost.
-/

namespace MikroLLM.Go

mutual

/-- The value that a `Decoder` with `UseNumber` stores in an `any`. -/
def Json.kept : Json → Json
  | .array items => .array (keptItems items)
  | .object fields => .object (keptFields fields)
  | .null => .null
  | .bool value => .bool value
  | .number literal => .number literal
  | .string text => .string text

def keptItems : List Json → List Json
  | [] => []
  | item :: rest => item.kept :: keptItems rest

def keptFields : List (String × Json) → List (String × Json)
  | [] => []
  | (key, member) :: rest =>
      if key ∈ (keptFields rest).map Prod.fst then keptFields rest
      else (key, member.kept) :: keptFields rest

end

/-- `delete(fields, key)`. -/
def deleteField (fields : Fields) (key : String) : Fields :=
  fields.filter fun member => !decide (member.1 = key)

/-- The bytes of bodies for a `Decoder` too: the document that they start with, and the bytes of a
map in which a number can be a literal. Every object has a text. -/
structure NumberCodec extends Codec where
  first : List UInt8 → Option Json
  first_json : ∀ {bytes document rest}, parse bytes = .json (document :: rest) →
    first bytes = some document
  first_nothing : ∀ {bytes}, parse bytes = .json [] → first bytes = none
  parse_kept : ∀ fields, keptFields fields = fields → ∃ written,
    parse (marshal fields) = encode written ∧ Alike (.object written) (.object fields)
  exists_text : ∀ fields, ∃ bytes, parse bytes = encode fields

section Keeping

variable {fields : Fields} {items : List Json} {key other : String} {value : Json}

theorem kept_array (items : List Json) : (Json.array items).kept = .array (keptItems items) :=
  rfl

theorem kept_object (fields : Fields) : (Json.object fields).kept = .object (keptFields fields) :=
  rfl

theorem keptItems_cons (item : Json) (items : List Json) :
    keptItems (item :: items) = item.kept :: keptItems items :=
  rfl

theorem keptFields_cons (key : String) (member : Json) (rest : Fields) :
    keptFields ((key, member) :: rest) =
      if key ∈ (keptFields rest).map Prod.fst then keptFields rest
      else (key, member.kept) :: keptFields rest :=
  rfl

theorem fieldOf_deleteField_self (fields : Fields) (key : String) :
    fieldOf (deleteField fields key) key = none :=
  fieldOf_filter_self fields key

theorem fieldOf_deleteField_ne (fields : Fields) (differs : other ≠ key) :
    fieldOf (deleteField fields key) other = fieldOf fields other :=
  fieldOf_filter_ne fields differs

theorem keptItems_eq (items : List Json) : keptItems items = items.map Json.kept := by
  induction items with
  | nil => rfl
  | cons item rest ih => simp [keptItems_cons, ih]

theorem mem_keptFields_keys : key ∈ (keptFields fields).map Prod.fst ↔
    key ∈ fields.map Prod.fst := by
  induction fields with
  | nil => rfl
  | cons member rest ih =>
      rcases member with ⟨first, value⟩
      simp only [keptFields_cons]
      split
      · rename_i again
        rw [ih, List.map_cons, List.mem_cons]
        constructor
        · intro later
          right
          exact later
        · rintro (rfl | later)
          · exact ih.mp again
          · exact later
      · simp only [List.map_cons, List.mem_cons, ih]

theorem fieldOf_keptFields (fields : Fields) (key : String) :
    fieldOf (keptFields fields) key = (fieldOf fields key).map Json.kept := by
  induction fields with
  | nil => rfl
  | cons member rest ih =>
      rcases member with ⟨first, value⟩
      simp only [keptFields_cons]
      split
      · rename_i again
        by_cases same : first = key
        · have later : fieldOf rest key ≠ none := by
            intro missing
            rw [same] at again
            exact fieldOf_eq_none_iff.mp missing (mem_keptFields_keys.mp again)
          rcases Option.ne_none_iff_exists'.mp later with ⟨last, found⟩
          simp [ih, fieldOf, found]
        · simp [ih, fieldOf, same]
      · by_cases same : first = key
        · cases found : fieldOf rest key with
          | none => simp [fieldOf, ih, found, same]
          | some last => simp [fieldOf, ih, found]
        · simp [fieldOf, ih, same]

theorem child_kept (value : Json) (step : Step) :
    value.kept.child step = (value.child step).map Json.kept := by
  cases value with
  | array items =>
      cases step with
      | key name => rfl
      | index position => simp [kept_array, Json.child, keptItems_eq]
  | object fields =>
      cases step with
      | key name => exact fieldOf_keptFields fields name
      | index position => rfl
  | null | bool _ | string _ | number _ => rfl

theorem face_kept (value : Json) : value.kept.face = value.face := by
  cases value with
  | array items => simp [kept_array, Json.face, keptItems_eq]
  | null | bool _ | string _ | number _ | object _ => rfl

/-- Numbers of any size are what they were, at every place. -/
theorem faceAt_kept (value : Json) (path : Path) : value.kept.faceAt path = value.faceAt path := by
  induction path generalizing value with
  | nil => simp [face_kept]
  | cons step rest ih =>
      rw [faceAt_cons, faceAt_cons, child_kept]
      cases value.child step with
      | none => rfl
      | some inner => exact ih inner

theorem length_keptFields_le (fields : Fields) : (keptFields fields).length ≤ fields.length := by
  induction fields with
  | nil => exact Nat.le_refl _
  | cons member rest ih =>
      rcases member with ⟨first, value⟩
      simp only [keptFields_cons]
      split
      · rw [List.length_cons]
        omega
      · simp only [List.length_cons]
        omega

/-- A map that a `Decoder` can have made: no key twice, at any depth. -/
theorem keptFields_self :
    keptFields fields = fields ↔
      (fields.map Prod.fst).Nodup ∧ ∀ member ∈ fields, member.2.kept = member.2 := by
  induction fields with
  | nil => exact iff_of_true rfl ⟨List.nodup_nil, List.forall_mem_nil _⟩
  | cons member rest ih =>
      rcases member with ⟨first, value⟩
      rw [List.map_cons, List.nodup_cons, List.forall_mem_cons]
      simp only [keptFields_cons]
      constructor
      · intro same
        split at same
        · have shorter := length_keptFields_le rest
          rw [same, List.length_cons] at shorter
          omega
        · rename_i fresh
          simp only [List.cons.injEq, Prod.mk.injEq, true_and] at same
          rcases same with ⟨valueSame, restSame⟩
          rw [restSame] at fresh
          have restFacts := ih.mp restSame
          exact ⟨⟨fresh, restFacts.1⟩, valueSame, restFacts.2⟩
      · rintro ⟨⟨fresh, nodup⟩, valueSame, restSame⟩
        rw [ih.mpr ⟨nodup, restSame⟩, valueSame, if_neg fresh]

theorem nodup_keptFields (fields : Fields) : ((keptFields fields).map Prod.fst).Nodup := by
  induction fields with
  | nil => exact List.nodup_nil
  | cons member rest ih =>
      rcases member with ⟨first, value⟩
      simp only [keptFields_cons]
      split
      · exact ih
      · rename_i fresh
        rw [List.map_cons, List.nodup_cons]
        exact ⟨fresh, ih⟩

mutual

theorem kept_kept : ∀ value : Json, value.kept.kept = value.kept
  | .null => rfl
  | .bool _ => rfl
  | .number _ => rfl
  | .string _ => rfl
  | .array items => by simp only [kept_array, keptItems_keptItems items]
  | .object fields => by simp only [kept_object, keptFields_keptFields fields]

theorem keptItems_keptItems : ∀ items : List Json, keptItems (keptItems items) = keptItems items
  | [] => rfl
  | item :: rest => by simp only [keptItems_cons, kept_kept item, keptItems_keptItems rest]

theorem keptFields_keptFields : ∀ fields : List (String × Json),
    keptFields (keptFields fields) = keptFields fields
  | [] => rfl
  | (first, member) :: rest => by
      have restSelf := keptFields_self.mp (keptFields_keptFields rest)
      rw [keptFields_self]
      refine ⟨nodup_keptFields _, ?_⟩
      simp only [keptFields_cons]
      split
      · exact restSelf.2
      · rw [List.forall_mem_cons]
        exact ⟨kept_kept member, restSelf.2⟩

end

mutual

/-- What reading back does not change is what a `Decoder` can have made. -/
theorem kept_of_load : ∀ {value : Json}, value.load = some value → value.kept = value
  | .null, _ => rfl
  | .bool _, _ => rfl
  | .number _, _ => rfl
  | .string _, _ => rfl
  | .array items, loads => by
      rw [kept_array, keptItems_of_load (load_array_self.mp loads)]
  | .object fields, loads => by
      have self := loadFields_self.mp (load_object_self.mp loads)
      rw [kept_object, keptFields_of_load fields self.1 self.2]

theorem keptItems_of_load : ∀ {items : List Json}, (∀ item ∈ items, item.load = some item) →
    keptItems items = items
  | [], _ => rfl
  | item :: rest, loads => by
      rw [List.forall_mem_cons] at loads
      rw [keptItems_cons, kept_of_load loads.1, keptItems_of_load loads.2]

theorem keptFields_of_load : ∀ fields : List (String × Json), (fields.map Prod.fst).Nodup →
    (∀ member ∈ fields, member.2.load = some member.2) → keptFields fields = fields
  | [], _, _ => rfl
  | (first, member) :: rest, nodup, loads => by
      rw [List.map_cons, List.nodup_cons] at nodup
      rw [List.forall_mem_cons] at loads
      have restSame := keptFields_of_load rest nodup.2 loads.2
      rw [keptFields_cons, restSame, kept_of_load loads.1, if_neg nodup.1]

end

theorem keptFields_setField (self : keptFields fields = fields) (valueSelf : value.kept = value) :
    keptFields (setField fields key value) = setField fields key value := by
  rw [keptFields_self] at self ⊢
  refine ⟨nodup_setField self.1, ?_⟩
  intro member inside
  rcases mem_setField inside with rfl | before
  · exact valueSelf
  · exact self.2 member before

theorem keptFields_deleteField (self : keptFields fields = fields) :
    keptFields (deleteField fields key) = deleteField fields key := by
  rw [keptFields_self] at self ⊢
  refine ⟨self.1.sublist (List.filter_sublist.map Prod.fst), ?_⟩
  intro member inside
  exact self.2 member (List.mem_filter.mp inside).1

theorem kept_object_self : (Json.object fields).kept = .object fields ↔
    keptFields fields = fields := by
  rw [kept_object, Json.object.injEq]

end Keeping

end MikroLLM.Go
