import MikroLLM.Params.Inject

/-!
# What `Inject` sets

Each knob sets the keys that it maps to for the backend and the path, where the
client's value does not stay, and nothing else is touched.
-/

namespace MikroLLM.Params

open Domain Go

section Sound

/-- What `ParseProfile` has checked. -/
structure Profile.Sound (profile : Profile) : Prop where
  values_load : ∀ member ∈ profile.values, member.2.load = some member.2
  values_known : ∀ member ∈ profile.values, ∃ outside wanted,
    knownKeys.lookup member.1 = some wanted ∧ checkType outside wanted member.2 = true
  extra_load : ∀ member ∈ profile.extra, member.2.load = some member.2
  extra_named : ∀ member ∈ profile.extra, hasPrefix member.1 "x_" = true

variable {outside : Double → ℤ} {codec : Codec} {profile next : Profile} {raw : String}

theorem Profile.Sound.none : Profile.none.Sound where
  values_load := by simp [Profile.none]
  values_known := by simp [Profile.none]
  extra_load := by simp [Profile.none]
  extra_named := by simp [Profile.none]

theorem Profile.Sound.readMember {member : String × Json} (sound : profile.Sound)
    (self : member.2.load = some member.2) (reads : readMember outside profile member = some next) :
    next.Sound := by
  rw [Params.readMember] at reads
  split at reads
  · split at reads
    · rcases Option.map_eq_some_iff.mp reads with ⟨locked, _, rfl⟩
      exact ⟨sound.values_load, sound.values_known, sound.extra_load, sound.extra_named⟩
    · cases reads
  · split at reads
    · rename_i named
      cases reads
      refine ⟨sound.values_load, sound.values_known, ?_, ?_⟩
      · intro other inside
        rcases List.mem_append.mp inside with before | last
        · exact sound.extra_load other before
        · rw [List.mem_singleton.mp last]
          exact self
      · intro other inside
        rcases List.mem_append.mp inside with before | last
        · exact sound.extra_named other before
        · rw [List.mem_singleton.mp last]
          exact named
    · rcases Option.bind_eq_some_iff.mp reads with ⟨wanted, known, checks⟩
      split at checks
      · rename_i typed
        cases checks
        refine ⟨?_, ?_, sound.extra_load, sound.extra_named⟩
        · intro other inside
          rcases List.mem_append.mp inside with before | last
          · exact sound.values_load other before
          · rw [List.mem_singleton.mp last]
            exact self
        · intro other inside
          rcases List.mem_append.mp inside with before | last
          · exact sound.values_known other before
          · rw [List.mem_singleton.mp last]
            exact ⟨outside, wanted, known, typed⟩
      · cases checks

theorem Profile.Sound.readMembers {fields : Fields} (sound : profile.Sound)
    (self : ∀ member ∈ fields, member.2.load = some member.2)
    (reads : fields.foldlM (Params.readMember outside) profile = some next) : next.Sound := by
  induction fields generalizing profile with
  | nil =>
      cases reads
      exact sound
  | cons member rest ih =>
      rw [List.forall_mem_cons] at self
      rw [List.foldlM_cons] at reads
      rcases Option.bind_eq_some_iff.mp reads with ⟨between, first, others⟩
      exact ih (sound.readMember self.1 first) self.2 others

/-- A profile that was accepted is sound. -/
theorem sound_of_parseProfile (parsed : parseProfile outside codec raw = some profile) :
    profile.Sound := by
  simp only [parseProfile] at parsed
  split at parsed
  · cases parsed
    exact Profile.Sound.none
  · rcases Option.bind_eq_some_iff.mp parsed with ⟨fields, document, reads⟩
    rw [Option.filter_eq_some_iff] at reads
    have self : ∀ member ∈ fields, member.2.load = some member.2 := by
      split at document
      · cases document
        simp
      · exact (loadFields_self.mp (decode_self document)).2
    exact Profile.Sound.none.readMembers self reads.1

end Sound

section Places

/-- The profile sets a key: it has the knob, and what the client set there does not stay. -/
def fills (profile : Profile) (raw : Fields) (knob key : String) : Bool :=
  (fieldOf profile.values knob).isSome && !has raw key profile knob

/-- The keys that the knobs with one key map to on the path of OpenAI. -/
def plainKnobs (kind : BackendKind) : List (String × String) :=
  [("temperature", "temperature"), ("top_p", "top_p"), ("max_tokens", "max_tokens"),
    ("num_predict", "max_tokens"), ("seed", "seed"), ("stop", "stop")] ++
    match kind with
    | .openrouter => openRouterKnobs.map fun knob => (knob, knob)
    | .vllm | .lmstudio =>
        vllmKnobs.map (fun knob => (knob, knob)) ++ [("repeat_penalty", "repetition_penalty")]
    | _ => []

def setsPlain (profile : Profile) (kind : BackendKind) (raw : Fields) : Path → Bool
  | .key key :: _ =>
      (plainKnobs kind).any fun knob => decide (knob.2 = key) && fills profile raw knob.1 key
  | _ => false

def setsExtra (profile : Profile) (raw : Fields) : Path → Bool
  | .key key :: _ => profile.extra.any fun member =>
      decide (member.1 = key) && ((fieldOf raw key).isNone || profile.locks key)
  | _ => false

/-- The client asks for no reasoning of its own. -/
def noReasoning (raw : Fields) : Bool :=
  (fieldOf raw "reasoning_effort").isNone && (fieldOf raw "reasoning").isNone

/-- What `think` is on the path of OpenAI for Ollama. -/
def setsEffort (profile : Profile) (raw : Fields) : Path → Bool
  | .key key :: rest =>
      if key = "reasoning_effort" then profile.locks "think" || noReasoning raw
      else if key = "reasoning" then
        profile.locks "think" &&
          match rest with
          | [] => isMap raw "reasoning"
          | .key name :: _ => name = "effort" || name = "enabled"
          | .index _ :: _ => false
      else false
  | _ => false

/-- What `think` is for OpenRouter. -/
def setsReasoning (profile : Profile) (raw : Fields) : Path → Bool
  | .key key :: _ =>
      if key = "reasoning" then profile.locks "think" || noReasoning raw
      else if key = "reasoning_effort" then profile.locks "think"
      else false
  | _ => false

/-- The client's arguments of a chat template have no `think`. -/
def noThinking (raw : Fields) : Bool :=
  (fieldOf (innerOf raw "chat_template_kwargs") "enable_thinking").isNone &&
    (fieldOf (innerOf raw "chat_template_kwargs") "reasoning_effort").isNone

/-- What `think` is for vLLM and LM Studio. -/
def setsTemplate (profile : Profile) (raw : Fields) : Path → Bool
  | .key key :: rest =>
      if key = "chat_template_kwargs" then
        (profile.locks "think" || noThinking raw) &&
          match rest with
          | .key name :: _ => name = "enable_thinking" || name = "reasoning_effort"
          | _ => !isMap raw "chat_template_kwargs"
      else false
  | _ => false

def setsThink (profile : Profile) (kind : BackendKind) (raw : Fields) (path : Path) : Bool :=
  (fieldOf profile.values "think").isSome &&
    match kind with
    | .ollama | .ollamaCloud => setsEffort profile raw path
    | .openrouter => setsReasoning profile raw path
    | .vllm | .lmstudio => setsTemplate profile raw path
    | _ => false

/-- What the options of Ollama's own path are. -/
def setsOptions (profile : Profile) (raw : Fields) : Path → Bool
  | .key key :: rest =>
      if key = "options" then
        match rest with
        | .key name :: _ => nativeOptions.any fun knob =>
            decide (knob.2 = name) && fills profile (innerOf raw "options") knob.1 name
        | _ => !isMap raw "options" &&
            nativeOptions.any fun knob => (fieldOf profile.values knob.1).isSome
      else false
  | _ => false

def setsNativeThink (profile : Profile) (raw : Fields) : Path → Bool
  | .key key :: _ => decide (key = "think") && fills profile raw "think" "think"
  | _ => false

/-- The places that `Inject` sets in the client's map. -/
def sets (profile : Profile) (kind : BackendKind) (route : Route) (raw : Fields) (path : Path) :
    Bool :=
  (match route with
    | .native _ _ => setsOptions profile raw path || setsNativeThink profile raw path
    | .openAI => setsPlain profile kind raw path || setsThink profile kind raw path) ||
    setsExtra profile raw path

end Places

section Writing

variable {sets : Path → Bool} {profile : Profile} {kind : BackendKind} {raw between : Fields}
  {knob key other : String} {value think : Json}

/-- A key with everything below it is set where a writer finds it free. -/
theorem frames_put {locked : Prop} (frames : Frames sets raw between)
    (whole : ∀ rest, sets (.key key :: rest) = sets [.key key])
    (inside : locked ∨ fieldOf raw key = none → sets [.key key] = true)
    (free : locked ∨ fieldOf between key = none) : Frames sets raw (setField between key value) := by
  have set : sets [.key key] = true := by
    rcases free with locks | missing
    · exact inside (Or.inl locks)
    · cases isSet : sets [.key key] with
      | true => rfl
      | false =>
          have same := frames [.key key] isSet
          rw [faceAt_key, faceAt_key, missing] at same
          have absent : fieldOf raw key = none := by
            cases found : fieldOf raw key with
            | none => rfl
            | some value =>
                rw [found] at same
                cases same
          exact isSet.symm.trans (inside (Or.inr absent))
  exact frames.trans (frames_setField value fun rest => (whole rest).trans set)

theorem fieldOf_offer_ne (differs : other ≠ key) :
    fieldOf (offer profile knob key raw) other = fieldOf raw other := by
  rw [offer]
  split
  · split
    · rfl
    · exact fieldOf_setField_ne raw _ differs
  · rfl

theorem has_eq_false : has raw key profile knob = false ↔
    profile.locks knob = true ∨ fieldOf raw key = none := by
  rw [has]
  split
  · rename_i locks
    simp [locks]
  · rename_i unlocked
    simp [unlocked]

theorem frames_offer (frames : Frames sets raw between)
    (whole : ∀ rest, sets (.key key :: rest) = sets [.key key])
    (inside : fills profile raw knob key = true → sets [.key key] = true) :
    Frames sets raw (offer profile knob key between) := by
  rw [offer]
  split
  · rename_i value found
    split
    · exact frames
    · rename_i replaced
      rw [Bool.not_eq_true, has_eq_false] at replaced
      apply frames_put frames whole ?_ replaced
      intro free
      apply inside
      rw [fills, found, has_eq_false.mpr free]
      rfl
  · exact frames

theorem frames_offerMaxTokens (frames : Frames sets raw between)
    (whole : ∀ rest, sets (.key "max_tokens" :: rest) = sets [.key "max_tokens"])
    (inside : ∀ knob, knob = "max_tokens" ∨ knob = "num_predict" →
      fills profile raw knob "max_tokens" = true → sets [.key "max_tokens"] = true) :
    Frames sets raw (offerMaxTokens profile between) := by
  rw [offerMaxTokens]
  split
  · exact frames_offer frames whole (inside "max_tokens" (Or.inl rfl))
  · exact frames_offer frames whole (inside "num_predict" (Or.inr rfl))

theorem frames_foldl_offer (knobs : List String) (frames : Frames sets raw between)
    (whole : ∀ knob ∈ knobs, ∀ rest, sets (.key knob :: rest) = sets [.key knob])
    (inside : ∀ knob ∈ knobs, fills profile raw knob knob = true → sets [.key knob] = true) :
    Frames sets raw (knobs.foldl (fun raw knob => offer profile knob knob raw) between) := by
  induction knobs generalizing between with
  | nil => exact frames
  | cons knob rest ih =>
      rw [List.forall_mem_cons] at whole inside
      exact ih (frames_offer frames whole.1 inside.1) whole.2 inside.2

theorem frames_injectExtra (frames : Frames sets raw between)
    (whole : ∀ member ∈ profile.extra, ∀ rest, sets (.key member.1 :: rest) = sets [.key member.1])
    (inside : ∀ member ∈ profile.extra, profile.locks member.1 = true ∨
      fieldOf raw member.1 = none → sets [.key member.1] = true) :
    Frames sets raw (injectExtra profile between) := by
  have each (members : List (String × Json)) (part : ∀ member ∈ members, member ∈ profile.extra)
      (between : Fields) (frames : Frames sets raw between) :
      Frames sets raw (members.foldl (fun raw member =>
        if (fieldOf raw member.1).isNone || profile.locks member.1 then
          setField raw member.1 member.2
        else raw) between) := by
    induction members generalizing between with
    | nil => exact frames
    | cons member rest ih =>
        rw [List.forall_mem_cons] at part
        rw [List.foldl_cons]
        apply ih part.2
        split
        · rename_i free
          rw [Bool.or_eq_true, Option.isNone_iff_eq_none] at free
          exact frames_put frames (whole member part.1) (inside member part.1) free.symm
        · exact frames
  exact each profile.extra (fun _ inside => inside) between frames

/-- The keys of its own that a profile has are not those of a request. -/
theorem fieldOf_injectExtra (sound : profile.Sound) (named : hasPrefix key "x_" = false) :
    fieldOf (injectExtra profile raw) key = fieldOf raw key := by
  have each (members : List (String × Json)) (part : ∀ member ∈ members, member ∈ profile.extra)
      (raw : Fields) :
      fieldOf (members.foldl (fun raw member =>
        if (fieldOf raw member.1).isNone || profile.locks member.1 then
          setField raw member.1 member.2
        else raw) raw) key = fieldOf raw key := by
    induction members generalizing raw with
    | nil => rfl
    | cons member rest ih =>
        rw [List.forall_mem_cons] at part
        rw [List.foldl_cons, ih part.2]
        have differs : key ≠ member.1 := by
          rintro rfl
          rw [sound.extra_named member part.1] at named
          cases named
        split
        · exact fieldOf_setField_ne raw _ differs
        · rfl
  exact each profile.extra (fun _ inside => inside) raw

/-- Deleting what `think` is in `reasoning`. -/
theorem frames_deleteNestedThink (map : isMap raw "reasoning" = true → sets [.key "reasoning"] = true)
    (effort : ∀ rest, sets (.key "reasoning" :: .key "effort" :: rest) = true)
    (enabled : ∀ rest, sets (.key "reasoning" :: .key "enabled" :: rest) = true) :
    Frames sets raw (deleteNestedThink raw) := by
  rw [deleteNestedThink]
  split
  · rename_i inner found
    have there : fieldOf raw "reasoning" = some (.object inner) := by
      rw [field] at found
      cases here : fieldOf raw "reasoning" with
      | none =>
          rw [here] at found
          cases found
      | some value =>
          rw [here, Option.getD_some] at found
          rw [found]
    have isInner : innerOf raw "reasoning" = inner := by rw [innerOf, found]
    have isThere : isMap raw "reasoning" = true := by rw [isMap, there]
    have deletes : Frames (fun rest => sets (.key "reasoning" :: rest)) inner
        (deleteField (deleteField inner "effort") "enabled") :=
      (frames_deleteField effort).trans (frames_deleteField enabled)
    simp only
    split
    · rename_i empty
      rw [empty] at deletes
      intro path free
      rcases path with _ | ⟨name | position, rest⟩
      · rfl
      · by_cases here : name = "reasoning"
        · subst here
          rw [faceAt_key, faceAt_key, fieldOf_deleteField_self, there, Option.bind_some]
          rcases rest with _ | ⟨step, rest⟩
          · rw [map isThere] at free
            cases free
          · rw [← deletes (step :: rest) free]
            cases step <;> rfl
        · rw [faceAt_key, faceAt_key, fieldOf_deleteField_ne raw here]
      · rfl
    · rw [← isInner] at deletes
      exact frames_inner (isInner ▸ deletes) (Or.inl isThere)
  · exact Frames.refl sets raw

theorem isMap_deleteField_ne (differs : key ≠ other) :
    isMap (deleteField raw other) key = isMap raw key := by
  rw [isMap, isMap, fieldOf_deleteField_ne raw differs]

theorem frames_applyEffort (profile : Profile) (kind : BackendKind) (think : Json) (raw : Fields) :
    Frames (setsEffort profile raw) raw (applyEffort profile kind think raw) := by
  rw [applyEffort]
  by_cases locks : profile.locks "think" = true
  · have cleared : Frames (setsEffort profile raw) raw
        (deleteNestedThink (deleteField raw "reasoning_effort")) := by
      have unset : Frames (setsEffort profile raw) raw (deleteField raw "reasoning_effort") :=
        frames_deleteField fun rest => by simp [setsEffort, locks]
      apply unset.trans
      apply frames_deleteNestedThink
      · intro map
        rw [isMap_deleteField_ne (by decide)] at map
        simp [setsEffort, locks, map]
      · intro rest
        simp [setsEffort, locks]
      · intro rest
        simp [setsEffort, locks]
    simp only [if_pos locks]
    split
    · exact cleared
    · split
      · exact cleared
      · exact cleared.trans (frames_setField _ fun rest => by simp [setsEffort, locks])
  · simp only [if_neg locks]
    split
    · exact Frames.refl _ raw
    · rename_i noEffort
      split
      · exact Frames.refl _ raw
      · rename_i noMore
        apply frames_setField
        intro rest
        rw [Bool.not_eq_true] at locks
        simp only [Option.not_isSome_iff_eq_none] at noEffort
        simp only [locks, Bool.not_false, Bool.and_true, Option.not_isSome_iff_eq_none] at noMore
        simp [setsEffort, noReasoning, noEffort, noMore]

theorem frames_applyOpenRouterReasoning (profile : Profile) (think : Json) (raw : Fields) :
    Frames (setsReasoning profile raw) raw (applyOpenRouterReasoning profile think raw) := by
  rw [applyOpenRouterReasoning]
  split
  · rename_i locks
    have whole (rest : Path) : setsReasoning profile raw (.key "reasoning" :: rest) = true := by
      simp [setsReasoning, locks]
    apply Frames.trans _ (frames_setField _ whole)
    apply Frames.trans (frames_deleteNestedThink (fun _ => whole _) (fun _ => whole _)
      fun _ => whole _)
    apply frames_deleteField
    intro rest
    simp [setsReasoning, locks]
  · split
    · exact Frames.refl _ raw
    · rename_i noMore
      split
      · exact Frames.refl _ raw
      · rename_i noEffort
        apply frames_setField
        intro rest
        rw [Option.not_isSome_iff_eq_none] at noEffort noMore
        simp [setsReasoning, noReasoning, noEffort, noMore]

theorem frames_setThinking (think : Json) (arguments : Fields)
    (enable : ∀ rest, sets (.key "enable_thinking" :: rest) = true)
    (effort : ∀ rest, sets (.key "reasoning_effort" :: rest) = true) :
    Frames sets arguments (setThinking think arguments) := by
  cases think with
  | bool value => exact frames_setField _ enable
  | string level =>
      rw [setThinking]
      split
      · exact frames_setField _ enable
      · exact frames_setField _ effort
  | null | number _ | array _ | object _ => exact Frames.refl sets arguments

theorem frames_applyTckThink (profile : Profile) (think : Json) (raw : Fields) :
    Frames (setsTemplate profile raw) raw (applyTckThink profile think raw) := by
  rw [applyTckThink]
  simp only
  split
  · exact Frames.refl _ raw
  · rename_i replaced
    have open' : (profile.locks "think" || noThinking raw) = true := by
      cases locks : profile.locks "think" with
      | true => rfl
      | false => simpa [locks, noThinking] using replaced
    split
    · exact Frames.refl _ raw
    · apply frames_inner
      · apply frames_setThinking
        · intro rest
          simp [setsTemplate, open']
        · intro rest
          simp [setsTemplate, open']
      · cases map : isMap raw "chat_template_kwargs" with
        | true =>
            left
            rfl
        | false =>
            right
            simp [setsTemplate, open', map]

end Writing

section OpenAI

variable {profile : Profile} {kind : BackendKind} {raw between : Fields} {key : String}

/-- The keys that `think` maps to on the path of OpenAI. -/
def thinkKeys : List String :=
  ["reasoning_effort", "reasoning", "chat_template_kwargs"]

theorem setsThink_of_not_mem (other : key ∉ thinkKeys) (rest : Path) :
    setsThink profile kind raw (.key key :: rest) = false := by
  simp only [thinkKeys, List.mem_cons, List.not_mem_nil, or_false, not_or] at other
  cases kind <;> simp [setsThink, setsEffort, setsReasoning, setsTemplate, other]

/-- Where `think` writes depends on its own keys. -/
theorem setsThink_congr (same : ∀ key ∈ thinkKeys, fieldOf between key = fieldOf raw key) :
    setsThink profile kind between = setsThink profile kind raw := by
  have effort := same "reasoning_effort" (by decide)
  have reasoning := same "reasoning" (by decide)
  have template := same "chat_template_kwargs" (by decide)
  have none : noReasoning between = noReasoning raw := by
    rw [noReasoning, noReasoning, effort, reasoning]
  have isReasoning : isMap between "reasoning" = isMap raw "reasoning" := by
    rw [isMap, isMap, reasoning]
  have isTemplate : isMap between "chat_template_kwargs" = isMap raw "chat_template_kwargs" := by
    rw [isMap, isMap, template]
  have arguments : innerOf between "chat_template_kwargs" = innerOf raw "chat_template_kwargs" := by
    rw [innerOf, innerOf, field, field, template]
  have noThink : noThinking between = noThinking raw := by
    rw [noThinking, noThinking, arguments]
  funext path
  cases kind <;> simp only [setsThink]
  all_goals
    congr 1
    cases path with
    | nil => rfl
    | cons step rest =>
        cases step <;>
          simp only [setsEffort, setsReasoning, setsTemplate, none, isReasoning, isTemplate, noThink]

theorem plain_not_think : ∀ knob ∈ plainKnobs kind, knob.2 ∉ thinkKeys := by
  cases kind <;> decide

theorem extra_not_think (sound : profile.Sound) {member : String × Json}
    (inside : member ∈ profile.extra) : member.1 ∉ thinkKeys := by
  have named := sound.extra_named member inside
  intro isThink
  simp only [thinkKeys, List.mem_cons, List.not_mem_nil, or_false] at isThink
  rcases isThink with effort | reasoning | template
  · rw [effort] at named
    exact absurd named (by decide)
  · rw [reasoning] at named
    exact absurd named (by decide)
  · rw [template] at named
    exact absurd named (by decide)

theorem sets_openAI_whole (other : key ∉ thinkKeys) (rest : Path) :
    sets profile kind .openAI raw (.key key :: rest) = sets profile kind .openAI raw [.key key] := by
  simp only [sets, setsThink_of_not_mem other]
  rfl

theorem sets_of_fills {knob : String × String} (inside : knob ∈ plainKnobs kind)
    (free : fills profile raw knob.1 knob.2 = true) :
    sets profile kind .openAI raw [.key knob.2] = true := by
  have plain : setsPlain profile kind raw [.key knob.2] = true :=
    List.any_eq_true.mpr ⟨knob, inside, by simp [free]⟩
  simp [sets, plain]

/-- Writing a knob that has one key. -/
theorem frames_plain (frames : Frames (sets profile kind .openAI raw) raw between)
    {knob : String × String} (inside : knob ∈ plainKnobs kind) :
    Frames (sets profile kind .openAI raw) raw (offer profile knob.1 knob.2 between) :=
  frames_offer frames (sets_openAI_whole (plain_not_think knob inside)) (sets_of_fills inside)

theorem frames_injectCommon (profile : Profile) (kind : BackendKind) (raw : Fields) :
    Frames (sets profile kind .openAI raw) raw (injectCommon profile raw) := by
  have begins := frames_plain (Frames.refl (sets profile kind .openAI raw) raw)
    (show ("temperature", "temperature") ∈ plainKnobs kind by cases kind <;> decide)
  have topP := frames_plain begins
    (show ("top_p", "top_p") ∈ plainKnobs kind by cases kind <;> decide)
  have limited : Frames (sets profile kind .openAI raw) raw (offerMaxTokens profile
      (offer profile "top_p" "top_p" (offer profile "temperature" "temperature" raw))) :=
    frames_offerMaxTokens topP (sets_openAI_whole (by decide)) fun knob isLimit free =>
      sets_of_fills (show (knob, "max_tokens") ∈ plainKnobs kind by
        rcases isLimit with rfl | rfl <;> cases kind <;> decide) free
  have seeded := frames_plain limited
    (show ("seed", "seed") ∈ plainKnobs kind by cases kind <;> decide)
  exact frames_plain seeded (show ("stop", "stop") ∈ plainKnobs kind by cases kind <;> decide)

theorem fieldOf_injectCommon (think : key ∈ thinkKeys) :
    fieldOf (injectCommon profile raw) key = fieldOf raw key := by
  have differs : key ≠ "temperature" ∧ key ≠ "top_p" ∧ key ≠ "max_tokens" ∧ key ≠ "seed" ∧
      key ≠ "stop" := by
    simp only [thinkKeys, List.mem_cons, List.not_mem_nil, or_false] at think
    rcases think with rfl | rfl | rfl <;> decide
  rcases differs with ⟨temperature, topP, limit, seed, stop⟩
  rw [injectCommon, fieldOf_offer_ne stop, fieldOf_offer_ne seed, offerMaxTokens]
  split
  · rw [fieldOf_offer_ne limit, fieldOf_offer_ne topP, fieldOf_offer_ne temperature]
  · rw [fieldOf_offer_ne limit, fieldOf_offer_ne topP, fieldOf_offer_ne temperature]

theorem fieldOf_foldl_offer {knobs : List String} (other : key ∉ knobs) :
    fieldOf (knobs.foldl (fun raw knob => offer profile knob knob raw) raw) key =
      fieldOf raw key := by
  induction knobs generalizing raw with
  | nil => rfl
  | cons knob rest ih =>
      rw [List.mem_cons, not_or] at other
      rw [List.foldl_cons, ih other.2, fieldOf_offer_ne other.1]

/-- `think` after the other knobs. -/
theorem frames_think {write : Json → Fields → Fields}
    (frames : Frames (sets profile kind .openAI raw) raw between)
    (same : ∀ key ∈ thinkKeys, fieldOf between key = fieldOf raw key)
    (writes : ∀ think, fieldOf profile.values "think" = some think →
      Frames (setsThink profile kind between) between (write think between)) :
    Frames (sets profile kind .openAI raw) raw (withKnob profile "think" write between) := by
  rw [withKnob]
  split
  · rename_i think found
    apply frames.trans
    apply (writes think found).mono
    intro path inside
    rw [setsThink_congr same] at inside
    simp [sets, inside]
  · exact frames

theorem frames_injectKind (frames : Frames (sets profile kind .openAI raw) raw between)
    (same : ∀ key ∈ thinkKeys, fieldOf between key = fieldOf raw key) :
    Frames (sets profile kind .openAI raw) raw (injectKind profile between kind) := by
  have kept (knobs : List String) (others : ∀ key ∈ thinkKeys, key ∉ knobs) (key : String)
      (isThink : key ∈ thinkKeys) :
      fieldOf (knobs.foldl (fun raw knob => offer profile knob knob raw) between) key =
        fieldOf raw key := by
    rw [fieldOf_foldl_offer (others key isThink), same key isThink]
  have folded (knobs : List String) (inside : ∀ knob ∈ knobs, (knob, knob) ∈ plainKnobs kind) :
      Frames (sets profile kind .openAI raw) raw
        (knobs.foldl (fun raw knob => offer profile knob knob raw) between) :=
    frames_foldl_offer knobs frames
      (fun knob isKnob => sets_openAI_whole (plain_not_think _ (inside knob isKnob)))
      (fun knob isKnob => sets_of_fills (inside knob isKnob))
  cases kind with
  | ollama =>
      apply frames_think frames same
      intro think found
      apply (frames_applyEffort profile .ollama think between).mono
      intro path inside
      simp [setsThink, found, inside]
  | ollamaCloud =>
      apply frames_think frames same
      intro think found
      apply (frames_applyEffort profile .ollamaCloud think between).mono
      intro path inside
      simp [setsThink, found, inside]
  | openrouter =>
      apply frames_think (folded openRouterKnobs (by decide)) (kept openRouterKnobs (by decide))
      intro think found
      apply (frames_applyOpenRouterReasoning profile think _).mono
      intro path inside
      simp [setsThink, found, inside]
  | vllm =>
      have all := frames_plain (folded vllmKnobs (by decide))
        (show ("repeat_penalty", "repetition_penalty") ∈ plainKnobs .vllm by decide)
      apply frames_think all
      · intro key isThink
        rw [fieldOf_offer_ne (by rintro rfl; exact absurd isThink (by decide))]
        exact kept vllmKnobs (by decide) key isThink
      · intro think found
        apply (frames_applyTckThink profile think _).mono
        intro path inside
        simp [setsThink, found, inside]
  | lmstudio =>
      have all := frames_plain (folded vllmKnobs (by decide))
        (show ("repeat_penalty", "repetition_penalty") ∈ plainKnobs .lmstudio by decide)
      apply frames_think all
      · intro key isThink
        rw [fieldOf_offer_ne (by rintro rfl; exact absurd isThink (by decide))]
        exact kept vllmKnobs (by decide) key isThink
      · intro think found
        apply (frames_applyTckThink profile think _).mono
        intro path inside
        simp [setsThink, found, inside]
  | opencomfy | codex | grok | hub => exact frames

theorem sets_of_extra {route : Route} {member : String × Json} (inside : member ∈ profile.extra)
    (free : profile.locks member.1 = true ∨ fieldOf raw member.1 = none) :
    sets profile kind route raw [.key member.1] = true := by
  have extra : setsExtra profile raw [.key member.1] = true := by
    refine List.any_eq_true.mpr ⟨member, inside, ?_⟩
    rw [← Option.isNone_iff_eq_none] at free
    simpa [or_comm] using free
  simp [sets, extra]

theorem frames_injectOpenAI (sound : profile.Sound) (kind : BackendKind) (raw : Fields) :
    Frames (sets profile kind .openAI raw) raw (injectOpenAI profile kind raw) := by
  apply frames_injectExtra
  · exact frames_injectKind (frames_injectCommon profile kind raw) fun _ => fieldOf_injectCommon
  · intro member inside
    exact sets_openAI_whole (extra_not_think sound inside)
  · intro member inside
    exact sets_of_extra inside

end OpenAI

section Native

variable {profile : Profile} {kind : BackendKind} {raw between : Fields} {key : String}
  {order : List (String × String)} {isOrder : order.Perm nativeOptions}

theorem setsOptions_of_ne (other : key ≠ "options") (rest : Path) :
    setsOptions profile raw (.key key :: rest) = false := by
  simp [setsOptions, other]

theorem sets_native_whole (other : key ≠ "options") (rest : Path) :
    sets profile kind (.native order isOrder) raw (.key key :: rest) =
      sets profile kind (.native order isOrder) raw [.key key] := by
  simp only [sets, setsOptions_of_ne other]
  rfl

theorem sets_of_option {knob : String × String} (inside : knob ∈ nativeOptions)
    (free : fills profile (innerOf raw "options") knob.1 knob.2 = true) (rest : Path) :
    sets profile kind (.native order isOrder) raw (.key "options" :: .key knob.2 :: rest) = true := by
  have option : setsOptions profile raw (.key "options" :: .key knob.2 :: rest) = true := by
    rw [setsOptions, if_pos rfl]
    exact List.any_eq_true.mpr ⟨knob, inside, by simp [free]⟩
  simp [sets, option]

/-- The options within the loop, and whether a knob has been written. -/
structure Loop (profile : Profile) (sets : Path → Bool) (options : Fields)
    (state : Fields × Bool) : Prop where
  frames : Frames sets options state.1
  unchanged : state.2 = false → state.1 = options
  changed : state.2 = true →
    ∃ knob ∈ nativeOptions, (fieldOf profile.values knob.1).isSome = true

theorem Loop.begins (profile : Profile) (sets : Path → Bool) (options : Fields) :
    Loop profile sets options (options, false) where
  frames := Frames.refl sets options
  unchanged _ := rfl
  changed never := by cases never

theorem Loop.round {places : Path → Bool} {options : Fields} {state : Fields × Bool}
    {knob : String × String} (inside : knob ∈ nativeOptions)
    (whole : ∀ rest, places (.key knob.2 :: rest) = places [.key knob.2])
    (covers : fills profile options knob.1 knob.2 = true → places [.key knob.2] = true)
    (loop : Loop profile places options state) :
    Loop profile places options (injectOption profile state knob) := by
  rw [injectOption]
  split
  · exact loop
  · rename_i value found
    split
    · rename_i free
      rw [Bool.or_eq_true, Option.isNone_iff_eq_none] at free
      constructor
      · apply frames_put loop.frames whole ?_ free.symm
        intro frees
        apply covers
        rw [fills, found, has_eq_false.mpr frees]
        rfl
      · intro never
        cases never
      · intro _
        exact ⟨knob, inside, by simp [found]⟩
    · exact loop

theorem Loop.rounds {places : Path → Bool} {options : Fields} {state : Fields × Bool}
    (part : ∀ knob ∈ order, knob ∈ nativeOptions)
    (whole : ∀ name rest, places (.key name :: rest) = places [.key name])
    (covers : ∀ knob ∈ nativeOptions,
      fills profile options knob.1 knob.2 = true → places [.key knob.2] = true)
    (loop : Loop profile places options state) :
    Loop profile places options (order.foldl (injectOption profile) state) := by
  induction order generalizing state with
  | nil => exact loop
  | cons knob rest ih =>
      rw [List.forall_mem_cons] at part
      exact ih part.2 (loop.round part.1 (whole knob.2) (covers knob part.1))

theorem frames_injectNative (sound : profile.Sound) (kind : BackendKind)
    (isOrder : order.Perm nativeOptions) (raw : Fields) :
    Frames (sets profile kind (.native order isOrder) raw) raw (injectNative order profile raw) := by
  have loop : Loop profile
      (fun rest => sets profile kind (.native order isOrder) raw (.key "options" :: rest))
      (innerOf raw "options")
      (order.foldl (injectOption profile) (innerOf raw "options", false)) := by
    apply (Loop.begins profile _ (innerOf raw "options")).rounds
    · intro knob inside
      exact isOrder.mem_iff.mp inside
    · intro name rest
      rfl
    · intro knob inside free
      exact sets_of_option inside free []
  have optioned : Frames (sets profile kind (.native order isOrder) raw) raw
      (if (order.foldl (injectOption profile) (innerOf raw "options", false)).2 then
        setField raw "options"
          (.object (order.foldl (injectOption profile) (innerOf raw "options", false)).1)
      else raw) := by
    split
    · rename_i changed
      apply frames_inner loop.frames
      rcases loop.changed changed with ⟨knob, inside, valued⟩
      have any : (nativeOptions.any fun knob => (fieldOf profile.values knob.1).isSome) = true :=
        List.any_eq_true.mpr ⟨knob, inside, valued⟩
      cases map : isMap raw "options" with
      | true =>
          left
          rfl
      | false =>
          right
          simp [sets, setsOptions, any, map]
    · exact Frames.refl _ raw
  rw [injectNative]
  apply frames_injectExtra
  · apply frames_offer optioned (sets_native_whole (by decide))
    intro free
    simp [sets, setsNativeThink, free]
  · intro member inside
    apply sets_native_whole
    intro isOptions
    have named := sound.extra_named member inside
    rw [isOptions] at named
    exact absurd named (by decide)
  · intro member inside
    exact sets_of_extra inside

/-- `Inject` changes what it is to set and nothing else. -/
theorem frames_injected (sound : profile.Sound) (kind : BackendKind) (route : Route)
    (raw : Fields) : Frames (sets profile kind route raw) raw (injected profile kind route raw) := by
  cases route with
  | native order isOrder => exact frames_injectNative sound kind isOrder raw
  | openAI => exact frames_injectOpenAI sound kind raw

end Native

end MikroLLM.Params
