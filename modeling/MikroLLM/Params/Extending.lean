import MikroLLM.Go.Codec
import MikroLLM.Params.Keeping

/-!
# Without locks the client wins

A profile without locked keys only adds to a request: whatever the client sent is
there as it was, and what is new is a field that a knob or a key of the profile
maps to.
-/

namespace MikroLLM.Params

open Domain Go

section Added

/-- The fields that the knobs and the keys of a profile map to. -/
def maps (profile : Profile) (kind : BackendKind) : Route → Path → Bool
  | .openAI, .key key :: rest =>
      ((plainKnobs kind).any fun knob =>
        decide (knob.2 = key) && (fieldOf profile.values knob.1).isSome) ||
      ((fieldOf profile.values "think").isSome &&
        match kind with
        | .ollama | .ollamaCloud => key = "reasoning_effort"
        | .openrouter => key = "reasoning"
        | .vllm | .lmstudio => key = "chat_template_kwargs" &&
            match rest with
            | .key name :: _ => name = "enable_thinking" || name = "reasoning_effort"
            | _ => true
        | _ => false) ||
      profile.extra.any fun member => member.1 = key
  | .native _ _, .key key :: rest =>
      (decide (key = "options") &&
        match rest with
        | .key name :: _ => nativeOptions.any fun knob =>
            decide (knob.2 = name) && (fieldOf profile.values knob.1).isSome
        | _ => nativeOptions.any fun knob => (fieldOf profile.values knob.1).isSome) ||
      (decide (key = "think") && (fieldOf profile.values "think").isSome) ||
      profile.extra.any fun member => member.1 = key
  | _, _ => false

/-- A member that is a map, or none. -/
def MapOrNone (fields : Fields) (key : String) : Prop :=
  ∀ value, fieldOf fields key = some value → ∃ inner, value = .object inner

/-- Everything is there as it was, and what is new is a field of the profile. -/
structure Extends (profile : Profile) (kind : BackendKind) (route : Route)
    (before after : Fields) : Prop where
  kept : ∀ path face, (Json.object before).faceAt path = some face →
    (Json.object after).faceAt path = some face
  added : ∀ path, (Json.object before).faceAt path = none →
    (Json.object after).faceAt path ≠ none → maps profile kind route path = true

variable {profile : Profile} {kind : BackendKind} {route : Route} {raw : Fields} {path : Path}
  {knob key : String}

theorem faceAt_of_missing (missing : fieldOf raw key = none) (rest : Path) :
    (Json.object raw).faceAt (.key key :: rest) = none := by
  rw [faceAt_key, missing]
  rfl

theorem missing_of_fills (unlocked : profile.locked = []) (free : fills profile raw knob key = true) :
    fieldOf raw key = none ∧ (fieldOf profile.values knob).isSome = true := by
  rw [fills, Bool.and_eq_true, Bool.not_eq_true', has_eq_false, Profile.locks, unlocked] at free
  rcases free with ⟨valued, never | missing⟩
  · simp at never
  · exact ⟨missing, valued⟩

theorem isMap_of_mapOrNone {value : Json} (map : MapOrNone raw key)
    (found : fieldOf raw key = some value) : isMap raw key = true := by
  rcases map value found with ⟨inner, rfl⟩
  rw [isMap, found]

theorem missing_of_not_isMap (map : MapOrNone raw key) (other : isMap raw key = false) :
    fieldOf raw key = none := by
  cases found : fieldOf raw key with
  | none => rfl
  | some value =>
      rw [isMap_of_mapOrNone map found] at other
      cases other

/-- Without locks a place that is set is a field of the profile that the client left out. -/
theorem missing_of_setsExtra (unlocked : profile.locked = [])
    (set : setsExtra profile raw path = true) :
    (Json.object raw).faceAt path = none ∧ maps profile kind route path = true := by
  rcases path with _ | ⟨key | position, rest⟩
  · cases set
  · rw [setsExtra, List.any_eq_true] at set
    rcases set with ⟨member, inside, free⟩
    simp only [Profile.locks, unlocked, Bool.and_eq_true, decide_eq_true_eq, List.not_mem_nil,
      decide_false, Bool.or_false, Option.isNone_iff_eq_none] at free
    have any : (profile.extra.any fun member => decide (member.1 = key)) = true :=
      List.any_eq_true.mpr ⟨member, inside, by simp [free.1]⟩
    refine ⟨faceAt_of_missing free.2 rest, ?_⟩
    cases route <;> simp [maps, any]
  · cases set

theorem missing_of_setsPlain (unlocked : profile.locked = [])
    (set : setsPlain profile kind raw path = true) :
    (Json.object raw).faceAt path = none ∧ maps profile kind .openAI path = true := by
  rcases path with _ | ⟨key | position, rest⟩
  · cases set
  · rw [setsPlain, List.any_eq_true] at set
    rcases set with ⟨knob, inside, free⟩
    rw [Bool.and_eq_true, decide_eq_true_eq] at free
    rcases missing_of_fills unlocked free.2 with ⟨missing, valued⟩
    refine ⟨faceAt_of_missing missing rest, ?_⟩
    have any : ((plainKnobs kind).any fun knob =>
        decide (knob.2 = key) && (fieldOf profile.values knob.1).isSome) = true :=
      List.any_eq_true.mpr ⟨knob, inside, by simp [free.1, valued]⟩
    simp [maps, any]
  · cases set

theorem missing_of_setsEffort (locks : profile.locks "think" = false)
    (set : setsEffort profile raw path = true) : (Json.object raw).faceAt path = none ∧
      ∃ rest, path = .key "reasoning_effort" :: rest := by
  rcases path with _ | ⟨key | position, rest⟩
  · cases set
  · simp only [setsEffort, locks, Bool.false_or, Bool.false_and, ite_self] at set
    split at set
    · rename_i here
      rw [noReasoning, Bool.and_eq_true, Option.isNone_iff_eq_none] at set
      subst here
      exact ⟨faceAt_of_missing set.1 rest, rest, rfl⟩
    · cases set
  · cases set

theorem missing_of_setsReasoning (locks : profile.locks "think" = false)
    (set : setsReasoning profile raw path = true) : (Json.object raw).faceAt path = none ∧
      ∃ rest, path = .key "reasoning" :: rest := by
  rcases path with _ | ⟨key | position, rest⟩
  · cases set
  · simp only [setsReasoning, locks, Bool.false_or, ite_self] at set
    split at set
    · rename_i here
      rw [noReasoning, Bool.and_eq_true, Option.isNone_iff_eq_none,
        Option.isNone_iff_eq_none] at set
      subst here
      exact ⟨faceAt_of_missing set.2 rest, rest, rfl⟩
    · cases set
  · cases set

theorem missing_of_setsTemplate (locks : profile.locks "think" = false)
    (template : MapOrNone raw "chat_template_kwargs")
    (set : setsTemplate profile raw path = true) : (Json.object raw).faceAt path = none ∧
      ∃ rest, path = .key "chat_template_kwargs" :: rest ∧ ∀ name deeper,
        rest = .key name :: deeper → name = "enable_thinking" ∨ name = "reasoning_effort" := by
  rcases path with _ | ⟨key | position, rest⟩
  · cases set
  · simp only [setsTemplate, locks, Bool.false_or] at set
    split at set
    · rename_i here
      subst here
      rw [Bool.and_eq_true] at set
      rcases set with ⟨free, set⟩
      rcases rest with _ | ⟨name | position, deeper⟩
      · rw [Bool.not_eq_true'] at set
        exact ⟨faceAt_of_missing (missing_of_not_isMap template set) [], [], rfl, by simp⟩
      · rw [noThinking, Bool.and_eq_true, Option.isNone_iff_eq_none,
          Option.isNone_iff_eq_none] at free
        have isThink : name = "enable_thinking" ∨ name = "reasoning_effort" := by
          simpa using set
        refine ⟨?_, _, rfl, by simpa using isThink⟩
        rw [← faceAt_innerOf]
        rcases isThink with rfl | rfl
        · exact faceAt_of_missing free.1 deeper
        · exact faceAt_of_missing free.2 deeper
      · rw [Bool.not_eq_true'] at set
        exact ⟨faceAt_of_missing (missing_of_not_isMap template set) _, _, rfl, by simp⟩
    · cases set
  · cases set

theorem missing_of_setsThink (unlocked : profile.locked = [])
    (template : MapOrNone raw "chat_template_kwargs")
    (set : setsThink profile kind raw path = true) :
    (Json.object raw).faceAt path = none ∧ maps profile kind .openAI path = true := by
  have locks : profile.locks "think" = false := by simp [Profile.locks, unlocked]
  simp only [setsThink, Bool.and_eq_true] at set
  rcases set with ⟨valued, set⟩
  cases kind with
  | ollama | ollamaCloud =>
      rcases missing_of_setsEffort locks set with ⟨missing, rest, rfl⟩
      exact ⟨missing, by simp [maps, valued]⟩
  | openrouter =>
      rcases missing_of_setsReasoning locks set with ⟨missing, rest, rfl⟩
      exact ⟨missing, by simp [maps, valued]⟩
  | vllm | lmstudio =>
      rcases missing_of_setsTemplate locks template set with ⟨missing, rest, rfl, names⟩
      refine ⟨missing, ?_⟩
      rcases rest with _ | ⟨name | position, deeper⟩
      · simp [maps, valued]
      · simp [maps, valued, names name deeper rfl]
      · simp [maps, valued]
  | opencomfy | codex | grok | hub => cases set

theorem missing_of_setsOptions {order : List (String × String)} {isOrder : order.Perm nativeOptions}
    (unlocked : profile.locked = []) (options : MapOrNone raw "options")
    (set : setsOptions profile raw path = true) : (Json.object raw).faceAt path = none ∧
      maps profile kind (.native order isOrder) path = true := by
  rcases path with _ | ⟨key | position, rest⟩
  · cases set
  · simp only [setsOptions] at set
    split at set
    · rename_i here
      subst here
      rcases rest with _ | ⟨name | position, deeper⟩
      · rw [Bool.and_eq_true, Bool.not_eq_true'] at set
        exact ⟨faceAt_of_missing (missing_of_not_isMap options set.1) _, by simp [maps, set.2]⟩
      · simp only [List.any_eq_true, Bool.and_eq_true, decide_eq_true_eq] at set
        rcases set with ⟨knob, inside, rfl, free⟩
        rcases missing_of_fills unlocked free with ⟨missing, valued⟩
        rw [← faceAt_innerOf]
        refine ⟨faceAt_of_missing missing deeper, ?_⟩
        have any : (nativeOptions.any fun other =>
            decide (other.2 = knob.2) && (fieldOf profile.values other.1).isSome) = true :=
          List.any_eq_true.mpr ⟨knob, inside, by simp [valued]⟩
        simp [maps, any]
      · rw [Bool.and_eq_true, Bool.not_eq_true'] at set
        exact ⟨faceAt_of_missing (missing_of_not_isMap options set.1) _, by simp [maps, set.2]⟩
    · cases set
  · cases set

theorem missing_of_setsNativeThink {order : List (String × String)}
    {isOrder : order.Perm nativeOptions} (unlocked : profile.locked = [])
    (set : setsNativeThink profile raw path = true) : (Json.object raw).faceAt path = none ∧
      maps profile kind (.native order isOrder) path = true := by
  rcases path with _ | ⟨key | position, rest⟩
  · cases set
  · simp only [setsNativeThink, Bool.and_eq_true, decide_eq_true_eq] at set
    rcases set with ⟨rfl, free⟩
    rcases missing_of_fills unlocked free with ⟨missing, valued⟩
    exact ⟨faceAt_of_missing missing rest, by simp [maps, valued]⟩
  · cases set

theorem missing_of_sets (unlocked : profile.locked = []) (options : MapOrNone raw "options")
    (template : MapOrNone raw "chat_template_kwargs")
    (set : sets profile kind route raw path = true) :
    (Json.object raw).faceAt path = none ∧ maps profile kind route path = true := by
  cases route with
  | native order isOrder =>
      simp only [sets, Bool.or_eq_true] at set
      rcases set with (option | think) | extra
      · exact missing_of_setsOptions unlocked options option
      · exact missing_of_setsNativeThink unlocked think
      · exact missing_of_setsExtra unlocked extra
  | openAI =>
      simp only [sets, Bool.or_eq_true] at set
      rcases set with (plain | think) | extra
      · exact missing_of_setsPlain unlocked plain
      · exact missing_of_setsThink unlocked template think
      · exact missing_of_setsExtra unlocked extra

/-- The map after `Inject` extends the client's. -/
theorem extends_injected (sound : profile.Sound) (unlocked : profile.locked = [])
    (options : MapOrNone raw "options") (template : MapOrNone raw "chat_template_kwargs") :
    Extends profile kind route raw (injected profile kind route raw) where
  kept path face found := by
    cases set : sets profile kind route raw path with
    | true =>
        rw [(missing_of_sets unlocked options template set).1] at found
        cases found
    | false => rw [frames_injected sound kind route raw path set, found]
  added path missing present := by
    cases set : sets profile kind route raw path with
    | true => exact (missing_of_sets unlocked options template set).2
    | false =>
        rw [frames_injected sound kind route raw path set, missing] at present
        exact absurd rfl present

end Added

section Bodies

variable {outside : Double → ℤ} {codec : NumberCodec} {raw : String} {profile : Profile}
  {kind : BackendKind} {route : Route} {body : List UInt8} {document : Fields}

theorem mapOrNone_keptFields {key : String} (map : MapOrNone document key) :
    MapOrNone (keptFields document) key := by
  intro value found
  rw [fieldOf_keptFields, Option.map_eq_some_iff] at found
  rcases found with ⟨before, there, rfl⟩
  rcases map before there with ⟨inner, rfl⟩
  exact ⟨keptFields inner, rfl⟩

/-- What the client sent stays, and what is added is a field of the profile. -/
theorem inject_extends (accepted : parseProfile outside codec.toCodec raw = some profile)
    (unlocked : profile.locked = []) (parsed : codec.parse body = .json [.object document])
    (options : MapOrNone document "options")
    (template : MapOrNone document "chat_template_kwargs") :
    ∃ out written, inject codec profile kind route body = some out ∧
      codec.parse out = .json [.object written] ∧
      Extends profile kind route document written := by
  cases filled : profile.isEmpty with
  | true =>
      refine ⟨body, document, by simp [inject, filled], parsed, ?_⟩
      constructor
      · intro path face found
        exact found
      · intro path missing present
        exact absurd missing present
  | false =>
      have sound := sound_of_parseProfile accepted
      have extends' : Extends profile kind route (keptFields document) _ :=
        extends_injected sound unlocked (mapOrNone_keptFields options)
          (mapOrNone_keptFields template)
      rcases codec.parse_kept _ (kept_injected sound kind route (keptFields_keptFields document))
        with ⟨written, parses, alike⟩
      refine ⟨_, written, inject_object filled parsed, parses, ?_⟩
      have same (path : Path) : (Json.object (keptFields document)).faceAt path =
          (Json.object document).faceAt path := faceAt_kept (.object document) path
      constructor
      · intro path face found
        rw [alike]
        exact extends'.kept path face ((same path).trans found)
      · intro path missing present
        rw [alike] at present
        exact extends'.added path ((same path).trans missing) present

/-- A profile and a request that are written. -/
def tunedText : String :=
  "\x7b\"think\":true\x7d"

def chatBody : List UInt8 :=
  bytesOf "\x7b\"model\":\"chat\"\x7d"

def tunedDocuments : Documents where
  list := [(bytesOf tunedText, encode [("think", .bool true)]),
    (chatBody, encode [("model", .string "chat")])]
  distinct := by decide
  texts := by decide

def tuned : Profile :=
  ⟨[("think", .bool true)], [], []⟩

theorem parse_tunedText :
    (knownNumberCodec tunedDocuments).parse (bytesOf tunedText) = encode [("think", .bool true)] :=
  @Documents.read_of_mem tunedDocuments _ _ List.mem_cons_self

theorem parse_chatBody :
    (knownNumberCodec tunedDocuments).parse chatBody = encode [("model", .string "chat")] :=
  @Documents.read_of_mem tunedDocuments _ _ (List.mem_cons_of_mem _ List.mem_cons_self)

theorem parseProfile_tunedText :
    parseProfile leastInt64 (knownNumberCodec tunedDocuments).toCodec tunedText = some tuned := by
  rw [parseProfile_object (by decide) (by decide) parse_tunedText rfl,
    List.foldlM_cons, readMember_knob (by decide) (by decide) rfl rfl]
  rfl

theorem inject_extends_tuned : ∃ out written,
    inject (knownNumberCodec tunedDocuments) tuned .vllm .openAI chatBody = some out ∧
      (knownNumberCodec tunedDocuments).parse out = .json [.object written] ∧
      Extends tuned .vllm .openAI [("model", .string "chat")] written :=
  inject_extends parseProfile_tunedText rfl parse_chatBody (by intro value found; cases found)
    (by intro value found; cases found)

end Bodies

end MikroLLM.Params
