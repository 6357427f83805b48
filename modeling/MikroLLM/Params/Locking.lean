import MikroLLM.Params.Fields

/-!
# A locked knob overrides the client

What a knob is in a request depends on the backend and the path. A locked knob is
to be sent as the profile has it, whatever the client put there.
-/

namespace MikroLLM.Params

open Domain Go

section Encodings

/-- The request is one on Ollama's own path. -/
def Route.isNative : Route → Bool
  | .native _ _ => true
  | .openAI => false

/-- What the profile has for a knob, or for a key of its own. -/
def Profile.knob (profile : Profile) (name : String) : Option Json :=
  if hasPrefix name "x_" then fieldOf profile.extra name else fieldOf profile.values name

/-- What `think` is on the path of OpenAI: its places, and what is there. -/
def thinkEncoding (value : Json) : BackendKind → List (Path × Option Json)
  | .ollama => [
      ([.key "reasoning_effort"], some (.string ((thinkToEffort value .ollama).getD "none"))),
      ([.key "reasoning", .key "effort"], none), ([.key "reasoning", .key "enabled"], none)]
  | .ollamaCloud => [
      ([.key "reasoning_effort"], some (.string ((thinkToEffort value .ollamaCloud).getD "none"))),
      ([.key "reasoning", .key "effort"], none), ([.key "reasoning", .key "enabled"], none)]
  | .openrouter => [
      ([.key "reasoning", .key "effort"], (reasoning value).child (.key "effort")),
      ([.key "reasoning", .key "enabled"], (reasoning value).child (.key "enabled")),
      ([.key "reasoning_effort"], none)]
  | .vllm | .lmstudio => [
      ([.key "chat_template_kwargs", .key "enable_thinking"],
        fieldOf (setThinking value []) "enable_thinking"),
      ([.key "chat_template_kwargs", .key "reasoning_effort"],
        fieldOf (setThinking value []) "reasoning_effort")]
  | _ => []

/-- The client's fields for a knob, with what a value of the knob is there; none where it is not
supported. -/
def encoding (native : Bool) (kind : BackendKind) (knob : String) (value : Json) :
    List (Path × Option Json) :=
  if hasPrefix knob "x_" then [([.key knob], some value)]
  else if native then
    if knob = "think" then [([.key "think"], some value)]
    else (nativeOptions.filter fun option => option.1 = knob).map fun option =>
      ([.key "options", .key option.2], some value)
  else if knob = "think" then thinkEncoding value kind
  else ((plainKnobs kind).filter fun plain => plain.1 = knob).map fun plain =>
    ([.key plain.2], some value)

/-- Two bodies that differ only in the fields for a knob, and in the members that hold them. -/
def DifferOnly (native : Bool) (kind : BackendKind) (knob : String) (left right : Json) : Prop :=
  ∀ path, (∀ field ∈ encoding native kind knob .null, ¬field.1 <+: path ∧ ¬path <+: field.1) →
    left.faceAt path = right.faceAt path

/-- What the profile has for a field. -/
def OfProfile (native : Bool) (kind : BackendKind) (profile : Profile) (place : Path)
    (held : Option Json) : Prop :=
  ∃ knob value, profile.knob knob = some value ∧ (place, held) ∈ encoding native kind knob value

/-- The object that `Inject` makes of a body. -/
def Sends (codec : NumberCodec) (profile : Profile) (kind : BackendKind) (route : Route)
    (body : List UInt8) (written : Fields) : Prop :=
  ∃ out, inject codec profile kind route body = some out ∧
    codec.parse out = .json [.object written]

/-- Two bodies that differ only in the fields for a knob are sent with the same there, which is
what the profile has. -/
def Overrides (codec : NumberCodec) (profile : Profile) (kind : BackendKind) (native : Bool)
    (knob : String) (value : Json) : Prop :=
  ∀ (first second : Route) (left right : List UInt8) (leftObject rightObject : Fields),
    first.isNative = native → second.isNative = native →
    codec.parse left = .json [.object leftObject] →
    codec.parse right = .json [.object rightObject] →
    DifferOnly native kind knob (.object leftObject) (.object rightObject) →
    ∃ leftSent rightSent, Sends codec profile kind first left leftSent ∧
      Sends codec profile kind second right rightSent ∧
      ∀ field ∈ encoding native kind knob value,
        (∀ rest, (Json.object leftSent).faceAt (field.1 ++ rest) =
          (Json.object rightSent).faceAt (field.1 ++ rest)) ∧
        (∃ held, OfProfile native kind profile field.1 held ∧ Holds leftSent field.1 held) ∧
        ∃ held, OfProfile native kind profile field.1 held ∧ Holds rightSent field.1 held

/-- A locked knob that does not override: `think` for vLLM and LM Studio, where the client's other
encoding of it stays; the limit under the name `num_predict` where the profile has another one under
the name `max_tokens` that is not locked; and on Ollama's own path two locked limits. -/
def Yields (profile : Profile) (kind : BackendKind) (native : Bool) (knob : String) (value : Json) :
    Prop :=
  if native then
    ∃ first second, fieldOf profile.values "num_predict" = some first ∧
      fieldOf profile.values "max_tokens" = some second ∧ first.face ≠ second.face ∧
      profile.locks "num_predict" = true ∧ profile.locks "max_tokens" = true ∧
      (knob = "num_predict" ∨ knob = "max_tokens")
  else
    (knob = "think" ∧ (kind = .vllm ∨ kind = .lmstudio)) ∨
    knob = "num_predict" ∧ ∃ other, fieldOf profile.values "max_tokens" = some other ∧
      profile.locks "max_tokens" = false ∧ other.face ≠ value.face

end Encodings

section Members

variable {kind : BackendKind} {native : Bool} {knob : String} {value : Json}
  {field : Path × Option Json}

theorem encoding_own (own : hasPrefix knob "x_" = true) :
    encoding native kind knob value = [([.key knob], some value)] := by
  rw [encoding, if_pos own]

theorem encoding_think : encoding false kind "think" value = thinkEncoding value kind := by
  simp [encoding, show hasPrefix "think" "x_" = false by decide]

theorem encoding_native_think : encoding true kind "think" value = [([.key "think"], some value)] := by
  simp [encoding, show hasPrefix "think" "x_" = false by decide]

theorem mem_encoding_option (notOwn : hasPrefix knob "x_" = false) (notThink : knob ≠ "think") :
    field ∈ encoding true kind knob value ↔ ∃ target, (knob, target) ∈ nativeOptions ∧
      field = ([.key "options", .key target], some value) := by
  simp only [encoding, notOwn, if_neg notThink, if_true, Bool.false_eq_true, if_false,
    List.mem_map, List.mem_filter, decide_eq_true_eq]
  constructor
  · rintro ⟨⟨name, target⟩, ⟨inside, rfl⟩, rfl⟩
    exact ⟨target, inside, rfl⟩
  · rintro ⟨target, inside, rfl⟩
    exact ⟨(knob, target), ⟨inside, rfl⟩, rfl⟩

theorem mem_encoding_plain (notOwn : hasPrefix knob "x_" = false) (notThink : knob ≠ "think") :
    field ∈ encoding false kind knob value ↔ ∃ key, (knob, key) ∈ plainKnobs kind ∧
      field = ([.key key], some value) := by
  simp only [encoding, notOwn, if_neg notThink, Bool.false_eq_true, if_false, List.mem_map,
    List.mem_filter, decide_eq_true_eq]
  constructor
  · rintro ⟨⟨name, key⟩, ⟨inside, rfl⟩, rfl⟩
    exact ⟨key, inside, rfl⟩
  · rintro ⟨key, inside, rfl⟩
    exact ⟨(knob, key), ⟨inside, rfl⟩, rfl⟩

end Members

section Overriding

variable {profile : Profile} {kind : BackendKind} {native : Bool} {knob key : String}
  {raw : Fields} {value : Json} {held : Option Json} {rest : Path} {field : Path × Option Json}

/-- What a place holds on every route of a kind of path, and that it is the profile's. -/
def Settles (native : Bool) (kind : BackendKind) (profile : Profile) (place : Path) : Prop :=
  ∃ held, OfProfile native kind profile place held ∧
    ∀ (route : Route) (raw : Fields), route.isNative = native →
      Holds (injected profile kind route raw) place held

theorem settles_native {place : Path} (own : OfProfile true kind profile place held)
    (holds : ∀ (order : List (String × String)) (raw : Fields), order.Perm nativeOptions →
      Holds (injectNative order profile raw) place held) : Settles true kind profile place := by
  refine ⟨held, own, ?_⟩
  rintro (⟨order, isOrder⟩ | _) raw isNative
  · exact holds order raw isOrder
  · cases isNative

theorem settles_openAI {place : Path} (own : OfProfile false kind profile place held)
    (holds : ∀ raw, Holds (injectOpenAI profile kind raw) place held) :
    Settles false kind profile place := by
  refine ⟨held, own, ?_⟩
  rintro (⟨order, isOrder⟩ | _) raw isNative
  · cases isNative
  · exact holds raw

theorem settles_own (nodup : (profile.extra.map Prod.fst).Nodup)
    (own : hasPrefix knob "x_" = true) (found : fieldOf profile.extra knob = some value)
    (locked : profile.locks knob = true) : Settles native kind profile [.key knob] := by
  refine ⟨some value, ⟨knob, value, ?_, ?_⟩, ?_⟩
  · rw [Profile.knob, if_pos own, found]
  · rw [encoding_own own]
    exact List.mem_cons_self
  · rintro (⟨order, isOrder⟩ | _) raw _
    · exact holds_key (fieldOf_injectExtra_locked nodup found locked)
    · exact holds_key (fieldOf_injectExtra_locked nodup found locked)

theorem settles_native_think (sound : profile.Sound)
    (found : fieldOf profile.values "think" = some value) (locked : profile.locks "think" = true) :
    Settles true kind profile [.key "think"] := by
  have own : OfProfile true kind profile [.key "think"] (some value) := by
    refine ⟨"think", value, found, ?_⟩
    rw [encoding_native_think]
    exact List.mem_cons_self
  apply settles_native own
  intro order raw isOrder
  exact holds_key (fieldOf_injectNative_think sound found locked)

/-- The values of two knobs that say the same integer hold the same. -/
theorem Holds.same {place : Path} {first second : Decimal}
    (holds : Holds raw place (some (.number first)))
    (same : (Json.number first).face = (Json.number second).face) :
    Holds raw place (some (.number second)) := by
  intro more
  rw [holds more, Option.bind_some, Option.bind_some, faceAt_eq_of_face same]

/-- Two locked limits of Ollama's own path, which say the same. -/
theorem holds_limits (sound : profile.Sound) {order : List (String × String)}
    (isOrder : order.Perm nativeOptions) {first second : Json}
    (one : fieldOf profile.values "num_predict" = some first)
    (two : fieldOf profile.values "max_tokens" = some second)
    (firstLocked : profile.locks "num_predict" = true)
    (secondLocked : profile.locks "max_tokens" = true) (same : first.face = second.face) :
    Holds (injectNative order profile raw) [.key "options", .key "num_predict"] (some first) ∧
      Holds (injectNative order profile raw) [.key "options", .key "num_predict"]
        (some second) := by
  have written := @fieldOf_injectNative_options profile raw "num_predict" first order sound isOrder
    "num_predict" (by decide) one firstLocked
  rcases sound.integer (by decide) one with ⟨number, rfl⟩
  rcases sound.integer (by decide) two with ⟨literal, rfl⟩
  have contend : Contend profile (fieldOf (innerOf raw "options") "num_predict") :=
    ⟨firstLocked.trans secondLocked.symm, Or.inl firstLocked⟩
  rcases limit_contended one two contend with ⟨before, after⟩ | ⟨before, after⟩ <;>
  rcases @optionsAfter_limit profile order raw isOrder with then' | after'
  · have holds := holds_inner written (then'.trans before)
    exact ⟨holds.same same.symm, holds⟩
  · have holds := holds_inner written (after'.trans after)
    exact ⟨holds, holds.same same⟩
  · have holds := holds_inner written (then'.trans before)
    exact ⟨holds, holds.same same⟩
  · have holds := holds_inner written (after'.trans after)
    exact ⟨holds.same same.symm, holds⟩

/-- One locked limit of Ollama's own path, to which the other one gives way. -/
theorem holds_limit (sound : profile.Sound) {order : List (String × String)}
    (isOrder : order.Perm nativeOptions) {other : String}
    (limits : knob = "num_predict" ∧ other = "max_tokens" ∨
      knob = "max_tokens" ∧ other = "num_predict")
    (found : fieldOf profile.values knob = some value) (locked : profile.locks knob = true)
    (gives : fieldOf profile.values other = none ∨ profile.locks other = false) :
    Holds (injectNative order profile raw) [.key "options", .key "num_predict"] (some value) := by
  have option : (knob, "num_predict") ∈ nativeOptions := by
    rcases limits with ⟨rfl, _⟩ | ⟨rfl, _⟩ <;> decide
  have written := @fieldOf_injectNative_options profile raw knob value order sound isOrder
    "num_predict" option found locked
  have alone := @limit_locked profile knob value (fieldOf (innerOf raw "options") "num_predict")
    other limits found locked gives
  rcases @optionsAfter_limit profile order raw isOrder with then' | after'
  · exact holds_inner written (then'.trans alone.1)
  · exact holds_inner written (after'.trans alone.2)

/-- The limit of the answer on Ollama's own path. -/
theorem holds_native_limit (sound : profile.Sound) {order : List (String × String)}
    (isOrder : order.Perm nativeOptions) (isLimit : knob = "num_predict" ∨ knob = "max_tokens")
    (found : fieldOf profile.values knob = some value) (locked : profile.locks knob = true)
    (overrides : ¬Yields profile kind true knob value) :
    Holds (injectNative order profile raw) [.key "options", .key "num_predict"] (some value) := by
  have same {first second : Json} (one : fieldOf profile.values "num_predict" = some first)
      (two : fieldOf profile.values "max_tokens" = some second)
      (firstLocked : profile.locks "num_predict" = true)
      (secondLocked : profile.locks "max_tokens" = true) : first.face = second.face := by
    by_contra apart
    apply overrides
    rw [Yields, if_pos rfl]
    exact ⟨first, second, one, two, apart, firstLocked, secondLocked, isLimit⟩
  rcases isLimit with rfl | rfl
  · cases there : fieldOf profile.values "max_tokens" with
    | none => exact holds_limit sound isOrder (Or.inl ⟨rfl, rfl⟩) found locked (Or.inl there)
    | some second =>
        cases secondLocked : profile.locks "max_tokens" with
        | false =>
            exact holds_limit sound isOrder (Or.inl ⟨rfl, rfl⟩) found locked (Or.inr secondLocked)
        | true =>
            exact (holds_limits sound isOrder found there locked secondLocked
              (same found there locked secondLocked)).1
  · cases there : fieldOf profile.values "num_predict" with
    | none => exact holds_limit sound isOrder (Or.inr ⟨rfl, rfl⟩) found locked (Or.inl there)
    | some first =>
        cases firstLocked : profile.locks "num_predict" with
        | false =>
            exact holds_limit sound isOrder (Or.inr ⟨rfl, rfl⟩) found locked (Or.inr firstLocked)
        | true =>
            exact (holds_limits sound isOrder there found firstLocked locked
              (same there found firstLocked locked)).2

/-- An option of Ollama's own path. -/
theorem settles_option (sound : profile.Sound) (notOwn : hasPrefix knob "x_" = false)
    (notThink : knob ≠ "think") (found : fieldOf profile.values knob = some value)
    (locked : profile.locks knob = true) (overrides : ¬Yields profile kind true knob value)
    {target : String} (option : (knob, target) ∈ nativeOptions) :
    Settles true kind profile [.key "options", .key target] := by
  have own : OfProfile true kind profile [.key "options", .key target] (some value) := by
    refine ⟨knob, value, ?_, (mem_encoding_option notOwn notThink).mpr ⟨target, option, rfl⟩⟩
    rw [Profile.knob, notOwn]
    exact found
  apply settles_native own
  intro order raw isOrder
  by_cases limit : target = "num_predict"
  · subst limit
    have isLimit : knob = "num_predict" ∨ knob = "max_tokens" := by
      have each : ∀ option ∈ nativeOptions, option.2 = "num_predict" →
          option.1 = "num_predict" ∨ option.1 = "max_tokens" := by decide
      exact each _ option rfl
    exact holds_native_limit sound isOrder isLimit found locked overrides
  · have written := @fieldOf_injectNative_options profile raw knob value order sound isOrder target
      option found locked
    exact holds_inner written (fieldOf_option_locked isOrder option limit found locked)

theorem holds_openAI (sound : profile.Sound) (notThink : key ∉ thinkKeys)
    (notOwn : hasPrefix key "x_" = false)
    (holds : Holds (beforeThink profile kind raw) [.key key] held) :
    Holds (injectOpenAI profile kind raw) [.key key] held := by
  rw [injectOpenAI_eq]
  exact (holds_withThink notThink holds).congr (fieldOf_injectExtra sound notOwn)

theorem holds_openAI_think (sound : profile.Sound) (think : key ∈ thinkKeys)
    (found : fieldOf profile.values "think" = some value)
    (holds : Holds (writeThink profile kind value (beforeThink profile kind raw))
      (.key key :: rest) held) :
    Holds (injectOpenAI profile kind raw) (.key key :: rest) held := by
  rw [injectOpenAI_eq, withKnob, found]
  apply holds.congr
  apply fieldOf_injectExtra sound
  have named : ∀ key ∈ thinkKeys, hasPrefix key "x_" = false := by decide
  exact named key think

/-- `think` on the path of OpenAI. -/
theorem settles_think (sound : profile.Sound) (found : fieldOf profile.values "think" = some value)
    (locked : profile.locks "think" = true)
    (overrides : ¬Yields profile kind false "think" value)
    (inside : field ∈ encoding false kind "think" value) :
    Settles false kind profile field.1 := by
  have own : OfProfile false kind profile field.1 field.2 := ⟨"think", value, found, inside⟩
  apply settles_openAI own
  intro raw
  rw [encoding_think] at inside
  have effort (isOllama : kind = .ollama ∨ kind = .ollamaCloud) (raw : Fields) :
      Holds (applyEffort profile kind value raw) [.key "reasoning_effort"]
          (some (.string ((thinkToEffort value kind).getD "none"))) ∧
        ∀ name, name = "effort" ∨ name = "enabled" →
          Holds (applyEffort profile kind value raw) [.key "reasoning", .key name] none := by
    have written := @fieldOf_applyEffort profile kind raw value locked
    exact ⟨holds_key written.1, fun name isName =>
      (holds_deleteNestedThink isName).congr written.2⟩
  cases kind with
  | ollama =>
      simp only [thinkEncoding, List.mem_cons, List.not_mem_nil, or_false] at inside
      have written := effort (Or.inl rfl)
      rcases inside with rfl | rfl | rfl
      · exact holds_openAI_think sound (by decide) found (written _).1
      · exact holds_openAI_think sound (by decide) found ((written _).2 _ (Or.inl rfl))
      · exact holds_openAI_think sound (by decide) found ((written _).2 _ (Or.inr rfl))
  | ollamaCloud =>
      simp only [thinkEncoding, List.mem_cons, List.not_mem_nil, or_false] at inside
      have written := effort (Or.inr rfl)
      rcases inside with rfl | rfl | rfl
      · exact holds_openAI_think sound (by decide) found (written _).1
      · exact holds_openAI_think sound (by decide) found ((written _).2 _ (Or.inl rfl))
      · exact holds_openAI_think sound (by decide) found ((written _).2 _ (Or.inr rfl))
  | openrouter =>
      simp only [thinkEncoding, List.mem_cons, List.not_mem_nil, or_false] at inside
      have written (raw : Fields) : writeThink profile .openrouter value raw =
          setField (deleteField (deleteNestedThink raw) "reasoning_effort") "reasoning"
            (reasoning value) := by
        rw [writeThink, applyOpenRouterReasoning, if_pos locked]
      have member (raw : Fields) (name : String) :
          Holds (writeThink profile .openrouter value raw) [.key "reasoning", .key name]
            ((reasoning value).child (.key name)) := by
        intro more
        change (Json.object _).faceAt (.key "reasoning" :: .key name :: more) = _
        rw [written, faceAt_setField_self, faceAt_cons]
      rcases inside with rfl | rfl | rfl
      · exact holds_openAI_think sound (by decide) found (member _ _)
      · exact holds_openAI_think sound (by decide) found (member _ _)
      · apply holds_openAI_think sound (by decide) found
        apply holds_key
        rw [written, fieldOf_setField_ne _ _ (by decide), fieldOf_deleteField_self]
  | vllm =>
      exfalso
      apply overrides
      simp [Yields]
  | lmstudio =>
      exfalso
      apply overrides
      simp [Yields]
  | opencomfy | codex | grok | hub => cases inside

/-- The limit of the answer on the path of OpenAI, under its own name. -/
theorem holds_maxTokens (sound : profile.Sound)
    (found : fieldOf profile.values "max_tokens" = some value)
    (locked : profile.locks "max_tokens" = true) :
    Holds (injectOpenAI profile kind raw) [.key "max_tokens"] (some value) := by
  apply holds_openAI sound (by decide) (by decide)
  apply holds_key
  rw [fieldOf_beforeThink_limit, if_pos ⟨by rw [found]; rfl, has_eq_false.mpr (Or.inl locked)⟩]
  exact round_locked found locked

/-- The limit under the name `num_predict`, where an unlocked one of the other name says the same. -/
theorem holds_numPredict (sound : profile.Sound) {other : Json}
    (found : fieldOf profile.values "num_predict" = some value)
    (locked : profile.locks "num_predict" = true)
    (there : fieldOf profile.values "max_tokens" = some other)
    (open' : profile.locks "max_tokens" = false) (same : other.face = value.face) :
    Holds (injectOpenAI profile kind raw) [.key "max_tokens"] (some value) := by
  rcases sound.integer (by decide) found with ⟨number, rfl⟩
  rcases sound.integer (by decide) there with ⟨literal, rfl⟩
  apply holds_openAI sound (by decide) (by decide)
  cases client : fieldOf raw "max_tokens" with
  | none =>
      apply Holds.same _ same
      apply holds_key
      rw [fieldOf_beforeThink_limit, if_pos ⟨by simp [there], has_eq_false.mpr (Or.inr client)⟩]
      simp [round, there, client]
  | some sent =>
      apply holds_key
      rw [fieldOf_beforeThink_limit, if_neg]
      · exact round_locked found locked
      · rintro ⟨_, free⟩
        rw [has_eq_false, open', client] at free
        simp at free

/-- The limit of the answer on the path of OpenAI. -/
theorem settles_limit (sound : profile.Sound) (isLimit : knob = "max_tokens" ∨ knob = "num_predict")
    (found : fieldOf profile.values knob = some value) (locked : profile.locks knob = true)
    (overrides : ¬Yields profile kind false knob value) :
    Settles false kind profile [.key "max_tokens"] := by
  have ofProfile {knob : String} {value : Json}
      (isLimit : knob = "max_tokens" ∨ knob = "num_predict")
      (found : fieldOf profile.values knob = some value) :
      OfProfile false kind profile [.key "max_tokens"] (some value) := by
    have plain : (knob, "max_tokens") ∈ plainKnobs kind := by
      rcases isLimit with rfl | rfl <;> cases kind <;> decide
    have notOwn : hasPrefix knob "x_" = false := by rcases isLimit with rfl | rfl <;> decide
    have notThink : knob ≠ "think" := by rcases isLimit with rfl | rfl <;> decide
    refine ⟨knob, value, ?_, (mem_encoding_plain notOwn notThink).mpr ⟨_, plain, rfl⟩⟩
    rw [Profile.knob, notOwn]
    exact found
  have own := ofProfile isLimit found
  rcases isLimit with rfl | rfl
  · exact settles_openAI own fun raw => holds_maxTokens sound found locked
  · cases other : fieldOf profile.values "max_tokens" with
    | none =>
        apply settles_openAI own
        intro raw
        apply holds_openAI sound (by decide) (by decide)
        apply holds_key
        rw [fieldOf_beforeThink_limit, if_neg (by rw [other]; simp)]
        exact round_locked found locked
    | some second =>
        cases secondLocked : profile.locks "max_tokens" with
        | true =>
            exact settles_openAI (ofProfile (Or.inl rfl) other) fun raw =>
              holds_maxTokens sound other secondLocked
        | false =>
            have same : second.face = value.face := by
              by_contra apart
              apply overrides
              rw [Yields, if_neg Bool.false_ne_true]
              exact Or.inr ⟨rfl, second, other, secondLocked, apart⟩
            exact settles_openAI own fun raw =>
              holds_numPredict sound found locked other secondLocked same

/-- A knob with one key on the path of OpenAI. -/
theorem settles_plain (sound : profile.Sound) (notOwn : hasPrefix knob "x_" = false)
    (notThink : knob ≠ "think") (found : fieldOf profile.values knob = some value)
    (locked : profile.locks knob = true) (overrides : ¬Yields profile kind false knob value)
    (plain : (knob, key) ∈ plainKnobs kind) : Settles false kind profile [.key key] := by
  by_cases limit : key = "max_tokens"
  · subst limit
    have isLimit : knob = "max_tokens" ∨ knob = "num_predict" := by
      have each : ∀ plain ∈ plainKnobs kind, plain.2 = "max_tokens" →
          plain.1 = "max_tokens" ∨ plain.1 = "num_predict" := by cases kind <;> decide
      exact each _ plain rfl
    exact settles_limit sound isLimit found locked overrides
  · have own : OfProfile false kind profile [.key key] (some value) := by
      refine ⟨knob, value, ?_, (mem_encoding_plain notOwn notThink).mpr ⟨key, plain, rfl⟩⟩
      rw [Profile.knob, notOwn]
      exact found
    have notOwnKey : hasPrefix key "x_" = false := by
      have each : ∀ plain ∈ plainKnobs kind, hasPrefix plain.2 "x_" = false := by
        cases kind <;> decide
      exact each _ plain
    apply settles_openAI own
    intro raw
    apply holds_openAI sound (plain_not_think (knob, key) plain) notOwnKey
    apply holds_key
    rw [fieldOf_beforeThink limit, filter_plainKnobs plain limit]
    exact round_locked found locked

end Overriding

section Yielding

variable {codec : NumberCodec} {outside : Double → ℤ} {text : String} {profile : Profile}
  {kind : BackendKind} {native : Bool} {knob : String} {value : Json} {route : Route}
  {raw : Fields}

/-- What `Inject` sends of an object. -/
theorem exists_sends (sound : profile.Sound) (filled : profile.isEmpty = false)
    {body : List UInt8} {document : Fields} (parsed : codec.parse body = .json [.object document]) :
    ∃ written, Sends codec profile kind route body written ∧
      Alike (.object written) (.object (injected profile kind route (keptFields document))) := by
  rcases codec.parse_kept _ (kept_injected sound kind route (keptFields_keptFields document)) with
    ⟨written, parses, alike⟩
  exact ⟨written, ⟨_, inject_object filled parsed, parses⟩, alike⟩

theorem Sends.unique {body : List UInt8} {written other : Fields}
    (sends : Sends codec profile kind route body written)
    (again : Sends codec profile kind route body other) : written = other := by
  rcases sends with ⟨out, sent, parsed⟩
  rcases again with ⟨out', sent', parsed'⟩
  rw [sent, Option.some.injEq] at sent'
  rw [← sent', parsed] at parsed'
  cases parsed'
  rfl

theorem filled_of_knob (there : profile.knob knob = some value) : profile.isEmpty = false := by
  rw [Profile.knob] at there
  split at there
  · have inside := mem_of_fieldOf there
    cases extra : profile.extra with
    | nil =>
        rw [extra] at inside
        cases inside
    | cons member rest => simp [Profile.isEmpty, extra]
  · have inside := mem_of_fieldOf there
    cases values : profile.values with
    | nil =>
        rw [values] at inside
        cases inside
    | cons member rest => simp [Profile.isEmpty, values]

/-- Two requests that are sent differently where a knob is theirs to set. -/
theorem not_overrides (sound : profile.Sound) (there : profile.knob knob = some value)
    (first second : Route) (left right : Fields) {field : Path × Option Json}
    (firstNative : first.isNative = native) (secondNative : second.isNative = native)
    (leftKept : keptFields left = left) (rightKept : keptFields right = right)
    (differ : DifferOnly native kind knob (.object left) (.object right))
    (inside : field ∈ encoding native kind knob value)
    (apart : (Json.object (injected profile kind first left)).faceAt field.1 ≠
      (Json.object (injected profile kind second right)).faceAt field.1) :
    ¬Overrides codec profile kind native knob value := by
  intro overrides
  have filled := filled_of_knob there
  rcases codec.exists_text left with ⟨leftBody, leftParsed⟩
  rcases codec.exists_text right with ⟨rightBody, rightParsed⟩
  rcases overrides first second _ _ left right firstNative secondNative leftParsed rightParsed
    differ with ⟨leftSent, rightSent, leftSends, rightSends, same⟩
  rcases exists_sends sound filled leftParsed with ⟨_, leftAgain, leftAlike⟩
  rcases exists_sends sound filled rightParsed with ⟨_, rightAgain, rightAlike⟩
  rw [leftSends.unique leftAgain, rightSends.unique rightAgain] at same
  rw [leftKept] at leftAlike
  rw [rightKept] at rightAlike
  have equal := (same field inside).1 []
  rw [List.append_nil, leftAlike, rightAlike] at equal
  exact apart equal

theorem overrides_of_settles (sound : profile.Sound) (there : profile.knob knob = some value)
    (settles : ∀ field ∈ encoding native kind knob value, Settles native kind profile field.1) :
    Overrides codec profile kind native knob value := by
  intro first second left right leftObject rightObject firstNative secondNative leftParsed
    rightParsed _
  have filled := filled_of_knob there
  rcases exists_sends sound filled leftParsed with ⟨leftSent, leftSends, leftAlike⟩
  rcases exists_sends sound filled rightParsed with ⟨rightSent, rightSends, rightAlike⟩
  refine ⟨leftSent, rightSent, leftSends, rightSends, ?_⟩
  intro field inside
  rcases settles field inside with ⟨held, own, holds⟩
  have leftHolds : Holds leftSent field.1 held := fun rest =>
    (leftAlike _).trans (holds first (keptFields leftObject) firstNative rest)
  have rightHolds : Holds rightSent field.1 held := fun rest =>
    (rightAlike _).trans (holds second (keptFields rightObject) secondNative rest)
  refine ⟨?_, ⟨held, own, leftHolds⟩, held, own, rightHolds⟩
  intro rest
  rw [leftHolds rest, rightHolds rest]

/-- Two locked limits on Ollama's own path. -/
theorem not_overrides_native (sound : profile.Sound) {first second : Json}
    (there : profile.knob knob = some value)
    (one : fieldOf profile.values "num_predict" = some first)
    (two : fieldOf profile.values "max_tokens" = some second) (apart : first.face ≠ second.face)
    (firstLocked : profile.locks "num_predict" = true)
    (secondLocked : profile.locks "max_tokens" = true)
    (isLimit : knob = "num_predict" ∨ knob = "max_tokens") :
    ¬Overrides codec profile kind true knob value := by
  have isReverse : nativeOptions.reverse.Perm nativeOptions := List.reverse_perm _
  have option : (knob, "num_predict") ∈ nativeOptions := by
    rcases isLimit with rfl | rfl <;> decide
  have notOwn : hasPrefix knob "x_" = false := by
    rcases isLimit with rfl | rfl <;> decide
  have notThink : knob ≠ "think" := by
    rcases isLimit with rfl | rfl <;> decide
  have inside : (([.key "options", .key "num_predict"], some value) : Path × Option Json) ∈
      encoding true kind knob value :=
    (mem_encoding_option notOwn notThink).mpr ⟨"num_predict", option, rfl⟩
  apply not_overrides sound there (.native nativeOptions (List.Perm.refl _))
    (.native nativeOptions.reverse isReverse) [] [] rfl rfl rfl rfl (fun _ _ => rfl) inside
  have limits (order : List (String × String)) (isOrder : order.Perm nativeOptions) :
      (Json.object (injectNative order profile [])).faceAt
          [.key "options", .key "num_predict"] =
        (fieldOf (optionsAfter profile order []) "num_predict").map Json.face := by
    have written := @fieldOf_injectNative_options profile [] "num_predict" first order sound isOrder
      "num_predict" (by decide) one firstLocked
    rw [faceAt_key, written, Option.bind_some, faceAt_key]
    cases fieldOf (optionsAfter profile order []) "num_predict" <;> rfl
  intro same
  simp only [injected, limits _ (List.Perm.refl _), limits _ isReverse, limit_forwards,
    limit_backwards] at same
  have contend : Contend profile (fieldOf (innerOf [] "options") "num_predict") :=
    ⟨firstLocked.trans secondLocked.symm, Or.inl firstLocked⟩
  rcases limit_contended one two contend with ⟨before, after⟩ | ⟨before, after⟩
  · rw [before, after] at same
    exact apart (Option.some.inj same).symm
  · rw [before, after] at same
    exact apart (Option.some.inj same)

/-- What the client has for `think` in the arguments of a chat template. -/
def thinkingBody : Fields :=
  [("chat_template_kwargs", .object [("enable_thinking", .null), ("reasoning_effort", .null)])]

/-- A value of `think` leaves one of its two names in the arguments of a chat template. -/
theorem setThinking_leaves (think : Json) : ∃ name,
    (name = "enable_thinking" ∨ name = "reasoning_effort") ∧
      ∀ arguments, fieldOf (setThinking think arguments) name = fieldOf arguments name := by
  cases think with
  | bool value =>
      exact ⟨"reasoning_effort", Or.inr rfl, fun arguments =>
        fieldOf_setField_ne arguments _ (by decide)⟩
  | string level =>
      by_cases none : lower level = "none"
      · refine ⟨"reasoning_effort", Or.inr rfl, fun arguments => ?_⟩
        rw [setThinking, if_pos none]
        exact fieldOf_setField_ne arguments _ (by decide)
      · refine ⟨"enable_thinking", Or.inl rfl, fun arguments => ?_⟩
        rw [setThinking, if_neg none]
        exact fieldOf_setField_ne arguments _ (by decide)
  | null | number _ | array _ | object _ => exact ⟨"enable_thinking", Or.inl rfl, fun _ => rfl⟩

theorem faceAt_applyTckThink {think : Json} (locked : profile.locks "think" = true)
    {name : String}
    (leaves : ∀ arguments, fieldOf (setThinking think arguments) name = fieldOf arguments name) :
    (Json.object (applyTckThink profile think raw)).faceAt [.key "chat_template_kwargs", .key name] =
      (Json.object raw).faceAt [.key "chat_template_kwargs", .key name] := by
  simp only [applyTckThink, locked, Bool.not_true, Bool.false_and, Bool.false_eq_true, if_false]
  split
  · rfl
  · rw [faceAt_setField_self, faceAt_key, leaves, ← faceAt_key, faceAt_innerOf]

/-- The client's other encoding of `think` stays for vLLM and LM Studio. -/
theorem not_overrides_template (sound : profile.Sound)
    (found : fieldOf profile.values "think" = some value) (locked : profile.locks "think" = true)
    (isKind : kind = .vllm ∨ kind = .lmstudio) :
    ¬Overrides codec profile kind false "think" value := by
  rcases setThinking_leaves value with ⟨name, isName, leaves⟩
  have inside : (([.key "chat_template_kwargs", .key name],
      fieldOf (setThinking value []) name) : Path × Option Json) ∈
        encoding false kind "think" value := by
    rw [encoding_think]
    rcases isKind with rfl | rfl <;> rcases isName with rfl | rfl <;> simp [thinkEncoding]
  have differ : DifferOnly false kind "think" (.object []) (.object thinkingBody) := by
    intro path others
    have listed (name : String) (isName : name = "enable_thinking" ∨ name = "reasoning_effort") :
        ∃ held, (([.key "chat_template_kwargs", .key name], held) : Path × Option Json) ∈
          encoding false kind "think" .null := by
      rw [encoding_think]
      rcases isKind with rfl | rfl <;> rcases isName with rfl | rfl <;> simp [thinkEncoding]
    rcases listed "enable_thinking" (Or.inl rfl) with ⟨_, enable⟩
    rcases listed "reasoning_effort" (Or.inr rfl) with ⟨_, effort⟩
    have notEnable := others _ enable
    have notEffort := others _ effort
    rcases path with _ | ⟨key | position, rest⟩
    · rfl
    · by_cases here : key = "chat_template_kwargs"
      · subst here
        rcases rest with _ | ⟨inner | position, rest⟩
        · exact absurd (by simp) notEnable.2
        · have first : inner ≠ "enable_thinking" := by
            rintro rfl
            exact notEnable.1 (by simp)
          have second : inner ≠ "reasoning_effort" := by
            rintro rfl
            exact notEffort.1 (by simp)
          simp [thinkingBody, faceAt_key, fieldOf, Ne.symm first, Ne.symm second]
        · rfl
      · simp [thinkingBody, faceAt_key, fieldOf, Ne.symm here]
    · rfl
  apply not_overrides sound (show profile.knob "think" = some value from found) .openAI .openAI []
    thinkingBody rfl rfl rfl rfl differ inside
  have written (raw : Fields) :
      (Json.object (injectOpenAI profile kind raw)).faceAt
          [.key "chat_template_kwargs", .key name] =
        (Json.object raw).faceAt [.key "chat_template_kwargs", .key name] := by
    have write : writeThink profile kind = applyTckThink profile := by
      rcases isKind with rfl | rfl <;> rfl
    rw [injectOpenAI_eq, withKnob, found, write, faceAt_key,
      fieldOf_injectExtra sound (by decide), ← faceAt_key, faceAt_applyTckThink locked leaves,
      faceAt_key, fieldOf_beforeThink_think (by decide), ← faceAt_key]
  simp only [injected, written]
  rcases isName with rfl | rfl <;> simp [thinkingBody, faceAt_key, fieldOf]

/-- The limit under the name `num_predict` gives way to an unlocked one. -/
theorem not_overrides_limit (sound : profile.Sound) {other : Json}
    (found : fieldOf profile.values "num_predict" = some value)
    (locked : profile.locks "num_predict" = true)
    (there : fieldOf profile.values "max_tokens" = some other)
    (open' : profile.locks "max_tokens" = false) (apart : other.face ≠ value.face) :
    ¬Overrides codec profile kind false "num_predict" value := by
  have inside : (([.key "max_tokens"], some value) : Path × Option Json) ∈
      encoding false kind "num_predict" value :=
    (mem_encoding_plain (by decide) (by decide)).mpr ⟨"max_tokens", by cases kind <;> decide, rfl⟩
  have differ : DifferOnly false kind "num_predict" (.object [])
      (.object [("max_tokens", .null)]) := by
    intro path others
    have notLimit := others ([.key "max_tokens"], some .null)
      ((mem_encoding_plain (by decide) (by decide)).mpr
        ⟨"max_tokens", by cases kind <;> decide, rfl⟩)
    rcases path with _ | ⟨key | position, rest⟩
    · rfl
    · have differs : key ≠ "max_tokens" := by
        rintro rfl
        exact notLimit.1 (by simp)
      simp [faceAt_key, fieldOf, Ne.symm differs]
    · rfl
  have written (raw : Fields) (held : Json)
      (limit : fieldOf (beforeThink profile kind raw) "max_tokens" = some held) :
      (Json.object (injectOpenAI profile kind raw)).faceAt [.key "max_tokens"] = some held.face :=
    holds_openAI sound (by decide) (by decide) (holds_key limit) []
  have unset : fieldOf (beforeThink profile kind []) "max_tokens" = some other := by
    rw [fieldOf_beforeThink_limit, if_pos ⟨by simp [there], has_eq_false.mpr (Or.inr rfl)⟩]
    simp [round, there, fieldOf]
  have set : fieldOf (beforeThink profile kind [("max_tokens", .null)]) "max_tokens" =
      some value := by
    rw [fieldOf_beforeThink_limit, if_neg]
    · exact round_locked found locked
    · rintro ⟨_, free⟩
      rw [has_eq_false, open'] at free
      simp [fieldOf] at free
  apply not_overrides sound (show profile.knob "num_predict" = some value from found) .openAI
    .openAI [] [("max_tokens", .null)] rfl rfl rfl rfl differ inside
  simp only [injected, written [] other unset, written _ value set]
  exact fun same => apart (Option.some.inj same)

/-- A locked knob overrides the client exactly if it is none that yields. -/
theorem overrides_iff (accepted : parseProfile outside codec.toCodec text = some profile)
    (there : profile.knob knob = some value) (locked : profile.locks knob = true) :
    Overrides codec profile kind native knob value ↔ ¬Yields profile kind native knob value := by
  have sound := sound_of_parseProfile accepted
  constructor
  · intro overrides yields
    cases native with
    | true =>
        rw [Yields, if_pos rfl] at yields
        rcases yields with ⟨first, second, one, two, apart, firstLocked, secondLocked, isLimit⟩
        exact not_overrides_native sound there one two apart firstLocked secondLocked isLimit
          overrides
    | false =>
        rw [Yields, if_neg Bool.false_ne_true] at yields
        rcases yields with ⟨rfl, isKind⟩ | ⟨rfl, other, found, open', apart⟩
        · exact not_overrides_template sound there locked isKind overrides
        · exact not_overrides_limit sound there locked found open' apart overrides
  · intro holds
    apply overrides_of_settles sound there
    intro field inside
    cases own : hasPrefix knob "x_" with
    | true =>
        rw [encoding_own own, List.mem_singleton] at inside
        subst inside
        rw [Profile.knob, if_pos own] at there
        exact settles_own (nodup_extra accepted) own there locked
    | false =>
        have found : fieldOf profile.values knob = some value := by
          rw [Profile.knob, own] at there
          exact there
        by_cases isThink : knob = "think"
        · subst isThink
          cases native with
          | true =>
              rw [encoding_native_think, List.mem_singleton] at inside
              subst inside
              exact settles_native_think sound found locked
          | false => exact settles_think sound found locked holds inside
        · cases native with
          | true =>
              rcases (mem_encoding_option own isThink).mp inside with ⟨target, option, rfl⟩
              exact settles_option sound own isThink found locked holds option
          | false =>
              rcases (mem_encoding_plain own isThink).mp inside with ⟨key, plain, rfl⟩
              exact settles_plain sound own isThink found locked holds plain

/-- A profile that locks `think`. -/
def lockedText : String :=
  "\x7b\"locked\":[\"think\"],\"think\":true\x7d"

def lockedFields : Fields :=
  [("locked", .array [.string "think"]), ("think", .bool true)]

def lockedDocuments : Documents where
  list := [(bytesOf lockedText, encode lockedFields)]
  distinct := by decide
  texts := by decide

def lockedThink : Profile :=
  ⟨[("think", .bool true)], ["think"], []⟩

theorem parseProfile_lockedText :
    parseProfile leastInt64 (knownNumberCodec lockedDocuments).toCodec lockedText =
      some lockedThink := by
  have parsed : (knownNumberCodec lockedDocuments).parse (bytesOf lockedText) = encode lockedFields :=
    @Documents.read_of_mem lockedDocuments _ _ List.mem_cons_self
  have think : readMember leastInt64 ⟨[], ["think"], []⟩ ("think", .bool true) = some lockedThink :=
    readMember_knob (by decide) (by decide) rfl rfl
  have reads : lockedFields.foldlM (readMember leastInt64) .none = some lockedThink := think
  rw [parseProfile_object (by decide) (by decide) parsed rfl, reads]
  rfl

theorem overrides_locked :
    Overrides (knownNumberCodec lockedDocuments) lockedThink .ollama false "think" (.bool true) ↔
      ¬Yields lockedThink .ollama false "think" (.bool true) :=
  overrides_iff parseProfile_lockedText rfl rfl

theorem not_overrides_locked : ¬∀ (codec : NumberCodec) (outside : Double → ℤ) (text : String)
    (profile : Profile) (kind : BackendKind) (native : Bool) (knob : String) (value : Json),
    parseProfile outside codec.toCodec text = some profile → profile.knob knob = some value →
    profile.locks knob = true → Overrides codec profile kind native knob value := by
  intro always
  have overrides := always (knownNumberCodec lockedDocuments) leastInt64 lockedText lockedThink .vllm
    false "think" (.bool true) parseProfile_lockedText rfl rfl
  exact not_overrides_template (sound_of_parseProfile parseProfile_lockedText) rfl rfl (Or.inl rfl)
    overrides

end Yielding

end MikroLLM.Params
