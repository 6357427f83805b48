import MikroLLM.Go.Bodies
import MikroLLM.Go.Convert
import MikroLLM.Go.Text

/-!
# The profile of parameters of an alias

Package `params`: a profile is stored as a text, a JSON object of known knobs,
keys of its own and the list of the locked ones.
-/

namespace MikroLLM.Params

open Go

/-- What the value of a knob has to be. -/
inductive KnobType
  | number
  | integer
  | think
  | stop
  deriving DecidableEq

/-- `knownKeys`. -/
def knownKeys : List (String × KnobType) :=
  [("temperature", .number), ("top_p", .number), ("top_k", .integer), ("min_p", .number),
    ("seed", .integer), ("repeat_penalty", .number), ("presence_penalty", .number),
    ("frequency_penalty", .number), ("mirostat", .integer), ("mirostat_tau", .number),
    ("mirostat_eta", .number), ("think", .think), ("num_predict", .integer),
    ("num_ctx", .integer), ("max_tokens", .integer), ("stop", .stop)]

/-- `Profile`; `extra` are the keys that start with `x_`. -/
structure Profile where
  values : Fields
  locked : List String
  extra : Fields

/-- A profile without anything. -/
def Profile.none : Profile :=
  ⟨[], [], []⟩

/-- `Profile.Empty`. -/
def Profile.isEmpty (profile : Profile) : Bool :=
  profile.values.isEmpty && profile.extra.isEmpty

/-- `checkType`. -/
def checkType (outside : Double → ℤ) : KnobType → Json → Bool
  | .number, .number _ => true
  | .integer, .number literal => (parseFloat literal).any fun value =>
      parseFloat ⟨value.toInt64 outside, 0⟩ = some value
  | .think, .bool _ => true
  | .think, .string level => lower level ∈ ["low", "medium", "high", "max", "none"]
  | .stop, .string _ => true
  | .stop, .array _ => true
  | _, _ => false

/-- A key of the list `locked`; none when it is not known. -/
def lockedKey : Json → Option String
  | .string key =>
      if (knownKeys.lookup key).isSome || hasPrefix key "x_" then some key else none
  | _ => none

/-- One member of the document; none is an error. -/
def readMember (outside : Double → ℤ) (profile : Profile) (member : String × Json) :
    Option Profile :=
  if member.1 = "locked" then
    match member.2 with
    | .array keys => (keys.mapM lockedKey).map fun locked => { profile with locked := locked }
    | _ => none
  else if hasPrefix member.1 "x_" then some { profile with extra := profile.extra ++ [member] }
  else
    (knownKeys.lookup member.1).bind fun wanted =>
      if checkType outside wanted member.2 then
        some { profile with values := profile.values ++ [member] }
      else none

/-- Every locked key has a value. -/
def Profile.complete (profile : Profile) : Bool :=
  profile.locked.all fun key =>
    (fieldOf profile.values key).isSome || (fieldOf profile.extra key).isSome

/-- `ParseProfile`; none is an error. -/
def parseProfile (outside : Double → ℤ) (codec : Codec) (raw : String) : Option Profile :=
  let raw := trimSpace raw
  if raw = "" ∨ raw = "\x7b\x7d" then some .none
  else
    let document :=
      match codec.parse (bytesOf raw) with
      -- `null` leaves the map nil without an error
      | .json [.null] => some []
      | body => decode body
    document.bind fun fields =>
      (fields.foldlM (readMember outside) .none).filter Profile.complete

section Parsing

variable {outside : Double → ℤ} {codec : Codec} {raw key : String} {fields : Fields}
  {profile : Profile} {wanted : KnobType} {value : Json}

/-- A knob that is known and has the right type is taken. -/
theorem readMember_knob (notLocked : key ≠ "locked") (notExtra : hasPrefix key "x_" = false)
    (known : knownKeys.lookup key = some wanted) (typed : checkType outside wanted value = true) :
    readMember outside profile (key, value) =
      some { profile with values := profile.values ++ [(key, value)] } := by
  simp [readMember, notLocked, notExtra, known, typed]

/-- A text that is an object is read member by member. -/
theorem parseProfile_object (trimmed : trimSpace raw = raw)
    (filled : ¬(raw = "" ∨ raw = "\x7b\x7d"))
    (parsed : codec.parse (bytesOf raw) = encode fields) (self : loadFields fields = some fields) :
    parseProfile outside codec raw =
      (fields.foldlM (readMember outside) .none).filter Profile.complete := by
  rw [parseProfile]
  simp only [trimmed, if_neg filled, parsed]
  change (decode (encode fields)).bind _ = _
  rw [decode_encode self, Option.bind_some]

end Parsing

end MikroLLM.Params
