import MikroLLM.PromptCache.Frame

/-!
# What `Prepare` decides

A body that has a cache hint of its own gets none. The search for a hint looks at
every object of the body, so that it finds one exactly if there is a place with
one of the two names.
-/

namespace MikroLLM.PromptCache

open Domain Go

/-- The names of a hint. -/
def hintKeys : List String :=
  ["cache_control", "prompt_cache_breakpoint"]

/-- There is a hint somewhere in a value. -/
def HasHint (value : Json) : Prop :=
  ∃ place, ∃ key ∈ hintKeys, value.valueAt (place ++ [.key key]) ≠ none

section Search

variable {value : Json} {fields : Fields} {key : String}

theorem hasHint_iff : HasHint value ↔
    (∃ key ∈ hintKeys, value.child (.key key) ≠ none) ∨
      ∃ step inner, value.child step = some inner ∧ HasHint inner := by
  constructor
  · rintro ⟨place, key, isHint, there⟩
    rcases place with _ | ⟨step, rest⟩
    · left
      refine ⟨key, isHint, ?_⟩
      intro missing
      rw [List.nil_append, valueAt_cons, missing] at there
      exact there rfl
    · right
      rw [List.cons_append, valueAt_cons] at there
      cases found : value.child step with
      | none =>
          rw [found] at there
          exact absurd rfl there
      | some inner =>
          rw [found, Option.bind_some] at there
          exact ⟨step, inner, found, rest, key, isHint, there⟩
  · rintro (⟨key, isHint, there⟩ | ⟨step, inner, found, place, key, isHint, there⟩)
    · refine ⟨[], key, isHint, ?_⟩
      rw [List.nil_append, valueAt_cons]
      rcases Option.ne_none_iff_exists'.mp there with ⟨inner, found⟩
      rw [found]
      simp
    · refine ⟨step :: place, key, isHint, ?_⟩
      rw [List.cons_append, valueAt_cons, found, Option.bind_some]
      exact there

theorem fieldOf_of_mem (nodup : (fields.map Prod.fst).Nodup) (inside : (key, value) ∈ fields) :
    fieldOf fields key = some value := by
  induction fields with
  | nil => cases inside
  | cons member rest ih =>
      rw [List.map_cons, List.nodup_cons] at nodup
      rcases List.mem_cons.mp inside with rfl | later
      · simp [fieldOf, fieldOf_eq_none_iff.mpr nodup.1]
      · simp [fieldOf, ih nodup.2 later]

mutual

/-- The search finds a hint exactly if there is one. -/
theorem nestedHint_iff : ∀ {value : Json}, value.load = some value →
    (nestedHint value = true ↔ HasHint value)
  | .object fields, self => by
      have members := load_object_self.mp self
      rw [loadFields_self] at members
      rw [nestedHint, Bool.or_eq_true, nestedHintFields_iff fields members.2, hasHint_iff]
      apply or_congr
      · simp [hintKeys, Json.child, Option.isSome_iff_ne_none]
      · constructor
        · rintro ⟨⟨key, inner⟩, inside, hints⟩
          exact ⟨.key key, inner, fieldOf_of_mem members.1 inside, hints⟩
        · rintro ⟨step, inner, found, hints⟩
          cases step with
          | key name => exact ⟨(name, inner), mem_of_fieldOf found, hints⟩
          | index position => cases found
  | .array items, self => by
      rw [nestedHint, nestedHintItems_iff items (load_array_self.mp self), hasHint_iff]
      constructor
      · rintro ⟨inner, inside, hints⟩
        rcases List.getElem?_of_mem inside with ⟨position, found⟩
        exact Or.inr ⟨.index position, inner, found, hints⟩
      · rintro (⟨key, _, there⟩ | ⟨step, inner, found, hints⟩)
        · exact absurd rfl there
        · cases step with
          | key name => cases found
          | index position => exact ⟨inner, List.mem_of_getElem? found, hints⟩
  | .null, _ | .bool _, _ | .number _, _ | .string _, _ => by
      rw [hasHint_iff]
      simp [nestedHint, Json.child]

theorem nestedHintFields_iff : ∀ fields : List (String × Json),
    (∀ member ∈ fields, member.2.load = some member.2) →
    (nestedHintFields fields = true ↔ ∃ member ∈ fields, HasHint member.2)
  | [], _ => by simp [nestedHintFields]
  | (key, value) :: rest, self => by
      rw [List.forall_mem_cons] at self
      rw [nestedHintFields, Bool.or_eq_true, nestedHint_iff self.1,
        nestedHintFields_iff rest self.2, List.exists_mem_cons_iff]

theorem nestedHintItems_iff : ∀ items : List Json, (∀ item ∈ items, item.load = some item) →
    (nestedHintItems items = true ↔ ∃ item ∈ items, HasHint item)
  | [], _ => by simp [nestedHintItems]
  | item :: rest, self => by
      rw [List.forall_mem_cons] at self
      rw [nestedHintItems, Bool.or_eq_true, nestedHint_iff self.1, nestedHintItems_iff rest self.2,
        List.exists_mem_cons_iff]

end

end Search

section Requests

/-- The body is to get another model. -/
def Renames (input : PrepInput) (raw : Fields) : Prop :=
  input.sendAs ≠ "" ∧ field raw "model" ≠ .string input.sendAs

/-- The body asks for a stream and leaves the choice of `include_usage` open. -/
def AsksUsage (raw : Fields) : Prop :=
  isStream raw = true ∧ (fieldOf raw "stream_options" = none ∨
    ∃ options, fieldOf raw "stream_options" = some (.object options) ∧
      fieldOf options "include_usage" = none)

/-- The model that a body names. -/
def modelName (raw : Fields) : String :=
  match field raw "model" with
  | .string model => model
  | _ => ""

/-- The name that the client asked for, as far as it is known. -/
def originalName (input : PrepInput) (raw : Fields) : String :=
  if input.origModel ≠ "" then input.origModel
  else if input.sendAs ≠ "" then input.sendAs
  else modelName raw

/-- The client has a hint in the body. -/
def ClientHint (raw : Fields) : Prop :=
  HasHint (.object raw) ∨ fieldOf raw "prompt_cache_options" ≠ none

/-- The mode asks for a hint. -/
def ModeWants (text : TextLibrary) (input : PrepInput) (raw : Fields) : Prop :=
  input.mode = .on ∨ input.mode = .auto ∧
    needsAnthropicTopLevel text input.provider input.sendAs (originalName input raw) = true

/-- The body is to get a hint. -/
def Wanted (text : TextLibrary) (input : PrepInput) (raw : Fields) : Prop :=
  input.kind = .openrouter ∧ ¬ClientHint raw ∧ ModeWants text input raw

variable {text : TextLibrary} {input : PrepInput} {document raw written : Fields} {key : String}

theorem sendsAs_eq_none_iff : sendsAs raw input.sendAs = none ↔ ¬Renames input raw := by
  rw [sendsAs, Renames]
  split
  · rename_i unnamed
    simp [unnamed]
  · rename_i named
    split
    · rename_i same
      simp [same]
    · rename_i differs
      simp [named, differs]

theorem ensureIncludeUsage_eq_none_iff : ensureIncludeUsage raw = none ↔ ¬AsksUsage raw := by
  rw [ensureIncludeUsage, AsksUsage]
  cases stream : isStream raw with
  | false => simp
  | true =>
      cases found : fieldOf raw "stream_options" with
      | none => simp
      | some options =>
          cases options with
          | object fields =>
              cases there : fieldOf fields "include_usage" <;> simp [there]
          | null | bool _ | number _ | string _ | array _ => simp

theorem hasCacheHints_iff (self : loadFields raw = some raw) :
    hasCacheHints raw = true ↔ ClientHint raw := by
  have search := nestedHint_iff (load_object_self.mpr self)
  simp only [hasCacheHints, Bool.or_eq_true, search, ClientHint, Option.isSome_iff_ne_none]
  constructor
  · rintro ((control | options) | nested)
    · left
      rw [hasHint_iff]
      exact Or.inl ⟨"cache_control", by decide, control⟩
    · exact Or.inr options
    · exact Or.inl nested
  · rintro (nested | options)
    · exact Or.inr nested
    · exact Or.inl (Or.inr options)

theorem field_string_iff {name : String} :
    field raw key = .string name ↔ (Json.object raw).faceAt [.key key] = some (.string name) := by
  rw [faceAt_eq_string, valueAt_cons, Json.child, field]
  cases fieldOf raw key <;> simp

theorem isStream_iff : isStream raw = true ↔
    (Json.object raw).faceAt [.key "stream"] = some (.bool true) ∨
      (Json.object raw).faceAt [.key "stream"] = some (.string "true") ∨
      (Json.object raw).faceAt [.key "stream"] = some (.string "1") := by
  rw [faceAt_key, isStream, field]
  cases fieldOf raw "stream" with
  | none => simp
  | some value => cases value <;> simp [Json.face]

theorem asksUsage_iff : AsksUsage raw ↔ isStream raw = true ∧
    ((Json.object raw).faceAt [.key "stream_options"] = none ∨
      (Json.object raw).faceAt [.key "stream_options"] = some .object ∧
        (Json.object raw).faceAt [.key "stream_options", .key "include_usage"] = none) := by
  rw [AsksUsage, faceAt_key, faceAt_key]
  apply and_congr_right
  intro _
  cases fieldOf raw "stream_options" with
  | none => simp
  | some value =>
      cases value with
      | object options => cases there : fieldOf options "include_usage" <;>
          simp [Json.face, faceAt_key, there]
      | null | bool _ | string _ | number _ | array _ => simp [Json.face]

theorem field_string_resembling {name : String}
    (resembles : Resembles (.object raw) (.object document)) :
    field raw key = .string name ↔ field document key = .string name := by
  rw [field_string_iff, field_string_iff, resembles.face_iff (by simp)]

/-- A request and another one that has at most other numbers are decided alike. -/
theorem renames_resembling (resembles : Resembles (.object raw) (.object document)) :
    Renames input raw ↔ Renames input document :=
  and_congr_right fun _ => not_congr (field_string_resembling resembles)

theorem asksUsage_resembling (resembles : Resembles (.object raw) (.object document)) :
    AsksUsage raw ↔ AsksUsage document := by
  have stream : isStream raw = true ↔ isStream document = true := by
    rw [isStream_iff, isStream_iff, resembles.face_iff (by simp), resembles.face_iff (by simp),
      resembles.face_iff (by simp)]
  rw [asksUsage_iff, asksUsage_iff, stream, resembles.none_iff, resembles.none_iff,
    resembles.face_iff (by simp)]

theorem valueAt_resembling {left right : Json} {place : Path} (resembles : Resembles left right) :
    left.valueAt place ≠ none ↔ right.valueAt place ≠ none := by
  rw [Ne, Ne, ← faceAt_eq_none_iff, resembles.none_iff, faceAt_eq_none_iff]

theorem fieldOf_resembling (resembles : Resembles (.object raw) (.object document)) :
    fieldOf raw key ≠ none ↔ fieldOf document key ≠ none := by
  have places := @valueAt_resembling _ _ [.key key] resembles
  simpa [valueAt_cons, Json.child] using places

theorem clientHint_resembling (resembles : Resembles (.object raw) (.object document)) :
    ClientHint raw ↔ ClientHint document := by
  apply or_congr
  · simp only [HasHint, valueAt_resembling resembles]
  · exact fieldOf_resembling resembles

theorem originalName_resembling (resembles : Resembles (.object raw) (.object document)) :
    originalName input raw = originalName input document := by
  have same (name : String) : field raw "model" = .string name ↔
      field document "model" = .string name := field_string_resembling resembles
  have name : modelName raw = modelName document := by
    rw [modelName, modelName]
    cases there : field document "model" with
    | string model => rw [(same model).mpr there]
    | null | bool _ | number _ | array _ | object _ =>
        cases loaded : field raw "model" with
        | string model =>
            have contrary := (same model).mp loaded
            rw [there] at contrary
            cases contrary
        | null | bool _ | number _ | array _ | object _ => rfl
  rw [originalName, originalName, name]

end Requests

end MikroLLM.PromptCache
