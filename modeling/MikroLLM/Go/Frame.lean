import MikroLLM.Go.Decoder

/-!
# What a pass over a body keeps

A pass that rewrites a body sets some of its places and leaves the others, perhaps
moved. Decoding into `float64` and encoding again keeps what it leaves exactly if
the numbers among it are ones that a `float64` holds.
-/

namespace MikroLLM.Go

/-- What has a place in another value is there what it was. -/
def Carries (place : Path → Option Path) (before after : Json) : Prop :=
  ∀ path target, place path = some target → after.faceAt target = before.faceAt path

/-- The places that are not set stay where they are. -/
def staying (sets : Path → Bool) (path : Path) : Option Path :=
  if sets path then none else some path

/-- What is not set is what it was. -/
def Frames (sets : Path → Bool) (before after : Fields) : Prop :=
  ∀ path, sets path = false → (Json.object after).faceAt path = (Json.object before).faceAt path

/-- `fields[key].(map[string]any)`, empty where that is none. -/
def innerOf (fields : Fields) (key : String) : Fields :=
  match field fields key with
  | .object inner => inner
  | _ => []

/-- The body that came out is the one that went in, or an object with everything in its place. -/
def Kept (codec : Codec) (place : Path → Option Path) (document : Fields)
    (body out : List UInt8) : Prop :=
  out = body ∨ ∃ written, codec.parse out = .json [.object written] ∧
    Carries place (.object document) (.object written)

/-- Every number that is to stay is one that a `float64` gives back. -/
def Exact (place : Path → Option Path) (value : Json) : Prop :=
  ∀ path target literal, place path = some target →
    value.valueAt path = some (.number literal) → literal.exact

section Frames

variable {codec : Codec} {place : Path → Option Path} {sets : Path → Bool}
  {before between after : Json} {document raw next : Fields} {body : List UInt8}

theorem carries_staying {before after : Fields} :
    Carries (staying sets) (.object before) (.object after) ↔ Frames sets before after := by
  simp [Carries, staying, Frames]

/-- What is carried from a decoded value is carried from the document if the numbers are exact. -/
theorem carries_load_iff {value loaded : Json} (loads : value.load = some loaded)
    (carries : Carries place loaded after) : Carries place value after ↔ Exact place value := by
  constructor
  · intro kept path target literal leads found
    have same : loaded.faceAt path = value.faceAt path := by
      rw [← carries path target leads, kept path target leads]
    exact (faceAt_load loads path).mp same literal found
  · intro exact path target leads
    rw [carries path target leads]
    exact (faceAt_load loads path).mpr fun literal found => exact path target literal leads found

theorem exact_of_load {value : Json} (self : value.load = some value) : Exact place value := by
  intro path target literal _ found
  exact (faceAt_load self path).mp rfl literal found

/-- A pass that decodes, changes the map and encodes it. -/
theorem kept_marshal_iff (parsed : codec.parse body = .json [.object document])
    (loads : loadFields document = some raw) (self : loadFields next = some next)
    (carries : Carries place (.object raw) (.object next)) :
    Kept codec place document body (codec.marshal next) ↔ Exact place (.object document) := by
  have loadsObject := load_object loads
  rcases codec.parse_marshal next self with ⟨written, again, isWritten, writes, reads, same⟩
  have carried : Carries place (.object document) (.object written) ↔
      Exact place (.object document) := by
    rw [← carries_load_iff loadsObject carries]
    simp only [Carries, writes.alike _]
  constructor
  · rintro (unchanged | ⟨fields, there, kept⟩)
    · rw [unchanged, parsed, encode, Body.json.injEq, List.singleton_inj, Json.object.injEq]
        at isWritten
      subst isWritten
      intro path target literal _ found
      have face := (same path).trans (writes.alike path).symm
      exact (faceAt_load (load_object reads) path).mp face literal found
    · rw [isWritten, encode, Body.json.injEq, List.singleton_inj, Json.object.injEq] at there
      subst there
      exact carried.mp kept
  · intro exact
    right
    exact ⟨written, isWritten, carried.mpr exact⟩

theorem decode_eq {body : Body} (other : ∀ document, body ≠ .json [.object document]) :
    decode body = none := by
  rcases body with documents | content
  · rcases documents with _ | ⟨first, _ | ⟨second, rest⟩⟩
    · rfl
    · cases first with
      | object fields => exact absurd rfl (other fields)
      | null | bool _ | number _ | array _ | string _ => rfl
    · cases first <;> rfl
  · rfl

end Frames

section Setting

variable {sets : Path → Bool} {fields before between after next : Fields} {key : String}

theorem Frames.refl (sets : Path → Bool) (fields : Fields) : Frames sets fields fields :=
  fun _ _ => rfl

theorem Frames.trans (first : Frames sets before between) (second : Frames sets between after) :
    Frames sets before after := by
  intro path free
  rw [second path free, first path free]

theorem Frames.mono {places : Path → Bool} (frames : Frames places before after)
    (inside : ∀ path, places path = true → sets path = true) : Frames sets before after := by
  intro path free
  apply frames
  by_contra set
  rw [inside path (by simpa using set)] at free
  cases free

theorem frames_setField (value : Json) (inside : ∀ rest, sets (.key key :: rest) = true) :
    Frames sets fields (setField fields key value) := by
  intro path free
  rcases path with _ | ⟨name | position, rest⟩
  · rfl
  · apply faceAt_setField_ne
    rintro rfl
    rw [inside rest] at free
    cases free
  · rfl

theorem frames_deleteField (inside : ∀ rest, sets (.key key :: rest) = true) :
    Frames sets fields (deleteField fields key) := by
  intro path free
  rcases path with _ | ⟨name | position, rest⟩
  · rfl
  · have differs : name ≠ key := by
      rintro rfl
      rw [inside rest] at free
      cases free
    rw [faceAt_key, faceAt_key, fieldOf_deleteField_ne fields differs]
  · rfl

theorem faceAt_innerOf (fields : Fields) (key name : String) (rest : Path) :
    (Json.object (innerOf fields key)).faceAt (.key name :: rest) =
      (Json.object fields).faceAt (.key key :: .key name :: rest) := by
  rw [faceAt_key fields, innerOf, field]
  cases fieldOf fields key with
  | none => rfl
  | some value => cases value <;> rfl

/-- A member that is a map. -/
def isMap (fields : Fields) (key : String) : Bool :=
  match fieldOf fields key with
  | some (.object _) => true
  | _ => false

/-- Setting in a member that is a map, or is made one. -/
theorem frames_inner (frames : Frames (fun rest => sets (.key key :: rest)) (innerOf fields key) next)
    (made : isMap fields key = true ∨ sets [.key key] = true ∧
      ∀ position rest, sets (.key key :: .index position :: rest) = true) :
    Frames sets fields (setField fields key (.object next)) := by
  intro path free
  rcases path with _ | ⟨name | position, rest⟩
  · rfl
  · by_cases here : name = key
    · subst here
      rw [faceAt_setField_self]
      rcases rest with _ | ⟨inner | position, rest⟩
      · rcases made with map | ⟨itself, _⟩
        · rw [faceAt_key]
          simp only [isMap] at map
          split at map
          · rename_i found
            rw [found]
            rfl
          · cases map
        · rw [itself] at free
          cases free
      · rw [frames _ free, faceAt_innerOf]
      · rcases made with map | ⟨_, items⟩
        · rw [faceAt_key]
          simp only [isMap] at map
          split at map
          · rename_i found
            rw [found]
            rfl
          · cases map
        · rw [items] at free
          cases free
    · rw [faceAt_setField_ne here]
  · rfl

end Setting

end MikroLLM.Go
