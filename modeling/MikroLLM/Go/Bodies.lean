import MikroLLM.Go.Tree

/-!
# Bodies as bytes

The members of a map have no order, `Marshal` writes them in the order of their
keys and a number in a form of its own. What a body says is therefore known
place by place only.
-/

namespace MikroLLM.Go

/-- A document that a map can be written as: it says what the map says and repeats no key. -/
structure WrittenAs (fields written : Fields) : Prop where
  alike : Alike (.object written) (.object fields)
  distinct : ∀ path inner, (Json.object written).valueAt path = some (.object inner) →
    (inner.map Prod.fst).Nodup

/-- The bytes of bodies: what `Unmarshal` and `Marshal` make of them, and their text. A map that was
decoded is decoded from what it is written as. -/
structure Codec where
  parse : List UInt8 → Body
  marshal : Fields → List UInt8
  text : List UInt8 → String
  parse_marshal : ∀ fields, loadFields fields = some fields → ∃ written next,
    parse (marshal fields) = encode written ∧ WrittenAs fields written ∧
      loadFields written = some next ∧ Alike (.object next) (.object fields)

/-- `Unmarshal` of bytes into a `map[string]any`. -/
def Codec.decode (codec : Codec) (bytes : List UInt8) : Option Fields :=
  MikroLLM.Go.decode (codec.parse bytes)

section Maps

variable {codec : Codec} {fields others document raw written : Fields} {key name : String}
  {body : List UInt8}

theorem WrittenAs.refl (self : loadFields fields = some fields) : WrittenAs fields fields := by
  refine ⟨fun _ => rfl, ?_⟩
  intro path inner found
  have loads := load_object_self.mpr self
  have innerSelf : (Json.object inner).load = some (.object inner) := by
    have same := valueAt_load loads path
    rw [found, Option.bind_some] at same
    exact same.symm
  exact (loadFields_self.mp (load_object_self.mp innerSelf)).1

theorem eq_singleton_of_keys {value : Json} (nodup : (fields.map Prod.fst).Nodup)
    (found : fieldOf fields key = some value)
    (others : ∀ other, other ≠ key → fieldOf fields other = none) : fields = [(key, value)] := by
  have isKey : ∀ member ∈ fields, member.1 = key := by
    intro member inside
    by_contra differs
    exact fieldOf_eq_none_iff.mp (others _ differs) (List.mem_map_of_mem inside)
  rcases fields with _ | ⟨⟨first, member⟩, _ | ⟨second, rest⟩⟩
  · cases found
  · have same : first = key := isKey _ List.mem_cons_self
    subst same
    simp only [fieldOf, if_true, Option.none_or, Option.some.injEq] at found
    rw [found]
  · have same := (isKey _ List.mem_cons_self).trans
      (isKey second (List.mem_cons_of_mem _ List.mem_cons_self)).symm
    rw [List.map_cons, List.map_cons, List.nodup_cons, List.mem_cons, not_or] at nodup
    exact absurd same nodup.1.1

/-- A member with one text is written as it is. -/
theorem WrittenAs.fieldOf_eq {text : String} (isWritten : WrittenAs fields written)
    (found : fieldOf fields key = some (.object [(name, .string text)])) :
    fieldOf written key = some (.object [(name, .string text)]) := by
  have face (path : Path) : (fieldOf written key).bind (·.faceAt path) =
      (Json.object [(name, .string text)]).faceAt path := by
    have same := isWritten.alike (.key key :: path)
    rw [faceAt_key, faceAt_key, found, Option.bind_some] at same
    exact same
  rcases Option.bind_eq_some_iff.mp (face []) with ⟨value, there, isObject⟩
  simp only [there, Option.bind_some] at face
  cases value with
  | object inner =>
      have nodup := isWritten.distinct [.key key] inner (by simp [valueAt_cons, Json.child, there])
      have named : fieldOf inner name = some (.string text) := by
        have same := face [.key name]
        simp only [faceAt_key, fieldOf, if_true, Option.none_or, Option.bind_some, faceAt_nil,
          Option.bind_eq_some_iff, Option.some.injEq] at same
        rcases same with ⟨member, inside, isText⟩
        rw [inside, face_eq_string.mp isText]
      have others : ∀ other, other ≠ name → fieldOf inner other = none := by
        intro other differs
        have same := face [.key other]
        cases inside : fieldOf inner other with
        | none => rfl
        | some member => simp [faceAt_key, fieldOf, inside, Ne.symm differs] at same
      rw [there, eq_singleton_of_keys nodup named others]
  | null | bool _ | number _ | string _ | array _ => cases isObject

theorem decode_object (parsed : codec.parse body = .json [.object document]) :
    codec.decode body = loadFields document := by
  rw [Codec.decode, parsed]
  rfl

/-- What is read back. -/
theorem decode_marshal (self : loadFields fields = some fields) :
    ∃ next, codec.decode (codec.marshal fields) = some next ∧
      Alike (.object next) (.object fields) := by
  rcases codec.parse_marshal fields self with ⟨written, next, parsed, _, loads, alike⟩
  exact ⟨next, (decode_object parsed).trans loads, alike⟩

end Maps

end MikroLLM.Go
