import MikroLLM.Params.Ordering

/-!
# The fields of a request after `Inject`

A knob that is locked is written into its fields whatever they were. A knob that
is not writes into a field that the client left out.
-/

namespace MikroLLM.Params

open Domain Go

/-- A place holds a value, or nothing. -/
def Holds (fields : Fields) (place : Path) (held : Option Json) : Prop :=
  ∀ rest, (Json.object fields).faceAt (place ++ rest) = held.bind (·.faceAt rest)

section Locked

variable {profile : Profile} {kind : BackendKind} {raw : Fields} {knob key : String}
  {value : Json} {order : List (String × String)}

theorem holds_key {held : Option Json} (found : fieldOf raw key = held) :
    Holds raw [.key key] held := by
  intro rest
  rw [List.singleton_append, faceAt_key, found]

theorem holds_inner {name : String} {inner : Fields} {held : Option Json}
    (found : fieldOf raw key = some (.object inner)) (there : fieldOf inner name = held) :
    Holds raw [.key key, .key name] held := by
  intro rest
  change (Json.object raw).faceAt (.key key :: .key name :: rest) = _
  rw [faceAt_key, found, Option.bind_some, faceAt_key, there]

theorem round_locked {held : Option Json} {target : String}
    (found : fieldOf profile.values knob = some value) (locked : profile.locks knob = true) :
    round profile held (knob, target) = some value := by
  simp [round, found, locked]

theorem fieldOf_offer (name : String) :
    fieldOf (offer profile knob key raw) name =
      if key = name then round profile (fieldOf raw name) (knob, key) else fieldOf raw name := by
  by_cases here : key = name
  · subst here
    rw [if_pos rfl]
    cases found : fieldOf profile.values knob with
    | none => simp only [offer, round, found]
    | some value =>
        by_cases open' : has raw key profile knob = true
        · have stays := open'
          rw [has] at stays
          split at stays
          · cases stays
          · rename_i unlocked
            rw [Bool.not_eq_true] at unlocked
            have some' := Option.not_isSome_iff_eq_none.not.mp (not_not_intro stays)
            simp [offer, round, found, open', unlocked, some']
        · rw [Bool.not_eq_true, has_eq_false] at open'
          have free := open'
          rw [← has_eq_false] at free
          rcases open' with locked | missing
          · simp [offer, round, found, free, locked]
          · simp [offer, round, found, free, missing]
  · rw [if_neg here]
    exact fieldOf_offer_ne (Ne.symm here)

theorem fieldOf_offer_locked (found : fieldOf profile.values knob = some value)
    (locked : profile.locks knob = true) :
    fieldOf (offer profile knob key raw) key = some value := by
  rw [fieldOf_offer, if_pos rfl, round_locked found locked]

/-- The options are written when a knob of them is locked. -/
theorem fieldOf_injectNative_options (sound : profile.Sound) (isOrder : order.Perm nativeOptions)
    {target : String} (option : (knob, target) ∈ nativeOptions)
    (found : fieldOf profile.values knob = some value) (locked : profile.locks knob = true) :
    fieldOf (injectNative order profile raw) "options" =
      some (.object (optionsAfter profile order raw)) := by
  have changed : (order.foldl (injectOption profile) (innerOf raw "options", false)).2 = true := by
    rw [changed_iff]
    refine ⟨(knob, target), isOrder.mem_iff.mpr option, ?_⟩
    rw [fills, found, has_eq_false.mpr (Or.inl locked)]
    rfl
  have set : injectNative order profile raw = afterOptions profile
      (setField raw "options" (.object (optionsAfter profile order raw))) := by
    simp only [injectNative, changed, if_true]
    rfl
  rw [set, fieldOf_options_afterOptions sound, fieldOf_setField_self]

theorem fieldOf_injectNative_think (sound : profile.Sound)
    (found : fieldOf profile.values "think" = some value) (locked : profile.locks "think" = true) :
    fieldOf (injectNative order profile raw) "think" = some value := by
  rw [injectNative, fieldOf_injectExtra sound (by decide)]
  exact fieldOf_offer_locked found locked

/-- An option that one knob is has the value of the locked knob. -/
theorem fieldOf_option_locked (isOrder : order.Perm nativeOptions) {target : String}
    (option : (knob, target) ∈ nativeOptions) (notLimit : target ≠ "num_predict")
    (found : fieldOf profile.values knob = some value) (locked : profile.locks knob = true) :
    fieldOf (optionsAfter profile order raw) target = some value := by
  have only : (nativeOptions.filter fun other => other.2 = target) = [(knob, target)] := by
    have each : ∀ option ∈ nativeOptions, option.2 ≠ "num_predict" →
        (nativeOptions.filter fun other => other.2 = option.2) = [option] := by decide
    exact each (knob, target) option notLimit
  have rounds := isOrder.filter fun other => decide (other.2 = target)
  rw [only, List.perm_singleton] at rounds
  rw [optionsAfter, fieldOf_rounds, rounds]
  exact round_locked found locked

/-- The limit, where one of its two knobs is locked and the other one is not. -/
theorem limit_locked {held : Option Json} {other : String}
    (limits : knob = "num_predict" ∧ other = "max_tokens" ∨
      knob = "max_tokens" ∧ other = "num_predict")
    (found : fieldOf profile.values knob = some value) (locked : profile.locks knob = true)
    (yields : fieldOf profile.values other = none ∨ profile.locks other = false) :
    limitThen profile held = some value ∧ limitAfter profile held = some value := by
  rcases limits with ⟨rfl, rfl⟩ | ⟨rfl, rfl⟩
  · rcases yields with missing | open'
    · simp [limitThen, limitAfter, round, found, locked, missing]
    · cases there : fieldOf profile.values "max_tokens" <;>
        simp [limitThen, limitAfter, round, found, locked, there, open']
  · rcases yields with missing | open'
    · simp [limitThen, limitAfter, round, found, locked, missing]
    · cases there : fieldOf profile.values "num_predict" <;>
        simp [limitThen, limitAfter, round, found, locked, there, open']

theorem fieldOf_deleteNestedThink_ne (differs : key ≠ "reasoning") :
    fieldOf (deleteNestedThink raw) key = fieldOf raw key := by
  rw [deleteNestedThink]
  split
  · simp only
    split
    · exact fieldOf_deleteField_ne raw differs
    · exact fieldOf_setField_ne raw _ differs
  · rfl

/-- Nothing is left of `think` in `reasoning`. -/
theorem holds_deleteNestedThink {name : String} (think : name = "effort" ∨ name = "enabled") :
    Holds (deleteNestedThink raw) [.key "reasoning", .key name] none := by
  intro rest
  change (Json.object (deleteNestedThink raw)).faceAt (.key "reasoning" :: .key name :: rest) = none
  rw [faceAt_key, deleteNestedThink]
  split
  · rename_i inner found
    simp only
    split
    · rw [fieldOf_deleteField_self]
      rfl
    · rw [fieldOf_setField_self, Option.bind_some, faceAt_key]
      rcases think with rfl | rfl
      · rw [fieldOf_deleteField_ne _ (by decide), fieldOf_deleteField_self]
        rfl
      · rw [fieldOf_deleteField_self]
        rfl
  · rename_i other
    cases there : fieldOf raw "reasoning" with
    | none => rfl
    | some value =>
        have same : field raw "reasoning" = value := by rw [field, there, Option.getD_some]
        rw [same] at other
        cases value with
        | object fields => exact absurd rfl (other fields)
        | null | bool _ | number _ | array _ | string _ => rfl

theorem fieldOf_applyEffort {think : Json} (locked : profile.locks "think" = true) :
    fieldOf (applyEffort profile kind think raw) "reasoning_effort" =
        some (.string ((thinkToEffort think kind).getD "none")) ∧
      fieldOf (applyEffort profile kind think raw) "reasoning" =
        fieldOf (deleteNestedThink (deleteField raw "reasoning_effort")) "reasoning" := by
  have cleared : fieldOf (deleteNestedThink (deleteField raw "reasoning_effort"))
      "reasoning_effort" = none := by
    rw [fieldOf_deleteNestedThink_ne (by decide), fieldOf_deleteField_self]
  have set : applyEffort profile kind think raw =
      setField (deleteNestedThink (deleteField raw "reasoning_effort")) "reasoning_effort"
        (.string ((thinkToEffort think kind).getD "none")) := by
    simp [applyEffort, locked, cleared]
  rw [set]
  exact ⟨fieldOf_setField_self _ _ _, fieldOf_setField_ne _ _ (by decide)⟩

end Locked

section Parts

variable {outside : Double → ℤ} {codec : Codec} {text : String} {profile next : Profile}
  {kind : BackendKind} {raw between : Fields} {knob key : String} {value : Json}
  {held : Option Json} {rest : Path}

theorem Holds.congr (holds : Holds raw (.key key :: rest) held)
    (same : fieldOf between key = fieldOf raw key) : Holds between (.key key :: rest) held := by
  intro more
  rw [← holds more]
  simp only [List.cons_append, faceAt_key, same]

theorem Holds.frames {sets : Path → Bool} {place : Path} (holds : Holds raw place held)
    (frames : Frames sets raw between) (free : ∀ rest, sets (place ++ rest) = false) :
    Holds between place held := by
  intro more
  rw [frames _ (free more), holds more]

/-- What the knobs with one key make of a field. -/
theorem fieldOf_offers (knobs : List (String × String)) (name : String) :
    fieldOf (knobs.foldl (fun raw knob => offer profile knob.1 knob.2 raw) raw) name =
      (knobs.filter fun knob => knob.2 = name).foldl (round profile) (fieldOf raw name) := by
  induction knobs generalizing raw with
  | nil => rfl
  | cons knob rest ih =>
      rw [List.foldl_cons, ih, fieldOf_offer]
      by_cases here : knob.2 = name
      · subst here
        simp
      · simp [here]

/-- The knobs with one key that depend on the kind. -/
def kindKnobs : BackendKind → List (String × String)
  | .openrouter => openRouterKnobs.map fun knob => (knob, knob)
  | .vllm | .lmstudio =>
      vllmKnobs.map (fun knob => (knob, knob)) ++ [("repeat_penalty", "repetition_penalty")]
  | _ => []

/-- What `think` writes for the kind. -/
def writeThink (profile : Profile) : BackendKind → Json → Fields → Fields
  | .ollama => applyEffort profile .ollama
  | .ollamaCloud => applyEffort profile .ollamaCloud
  | .openrouter => applyOpenRouterReasoning profile
  | .vllm | .lmstudio => applyTckThink profile
  | _ => fun _ raw => raw

theorem withKnob_id : withKnob profile knob (fun _ raw => raw) raw = raw := by
  rw [withKnob]
  split <;> rfl

theorem injectKind_eq : injectKind profile raw kind = withKnob profile "think"
    (writeThink profile kind)
    ((kindKnobs kind).foldl (fun raw knob => offer profile knob.1 knob.2 raw) raw) := by
  cases kind with
  | ollama | ollamaCloud | openrouter | vllm | lmstudio => rfl
  | opencomfy | codex | grok | hub => exact withKnob_id.symm

theorem frames_writeThink (found : fieldOf profile.values "think" = some value) :
    Frames (setsThink profile kind raw) raw (writeThink profile kind value raw) := by
  cases kind with
  | ollama =>
      apply (frames_applyEffort profile .ollama value raw).mono
      intro path inside
      simp [setsThink, found, inside]
  | ollamaCloud =>
      apply (frames_applyEffort profile .ollamaCloud value raw).mono
      intro path inside
      simp [setsThink, found, inside]
  | openrouter =>
      apply (frames_applyOpenRouterReasoning profile value raw).mono
      intro path inside
      simp [setsThink, found, inside]
  | vllm | lmstudio =>
      apply (frames_applyTckThink profile value raw).mono
      intro path inside
      simp [setsThink, found, inside]
  | opencomfy | codex | grok | hub => exact Frames.refl _ raw

/-- What is not a key of `think` holds after it what it held before. -/
theorem holds_withThink (other : key ∉ thinkKeys) (holds : Holds raw (.key key :: rest) held) :
    Holds (withKnob profile "think" (writeThink profile kind) raw) (.key key :: rest) held := by
  rw [withKnob]
  split
  · rename_i value found
    exact holds.frames (frames_writeThink found) fun more =>
      setsThink_of_not_mem other (rest ++ more)
  · exact holds

/-- The map before `think` is written. -/
def beforeThink (profile : Profile) (kind : BackendKind) (raw : Fields) : Fields :=
  (kindKnobs kind).foldl (fun raw knob => offer profile knob.1 knob.2 raw)
    (injectCommon profile raw)

theorem injectOpenAI_eq : injectOpenAI profile kind raw = injectExtra profile
    (withKnob profile "think" (writeThink profile kind) (beforeThink profile kind raw)) := by
  rw [injectOpenAI, injectKind_eq]
  rfl

/-- A field of a knob with one key, as it is before `think`. -/
theorem fieldOf_beforeThink {name : String} (notLimit : name ≠ "max_tokens") :
    fieldOf (beforeThink profile kind raw) name =
      ((plainKnobs kind).filter fun knob => knob.2 = name).foldl (round profile)
        (fieldOf raw name) := by
  have limited (raw : Fields) : fieldOf (offerMaxTokens profile raw) name = fieldOf raw name := by
    rw [offerMaxTokens]
    split
    · exact fieldOf_offer_ne notLimit
    · exact fieldOf_offer_ne notLimit
  have parts : (plainKnobs kind).filter (fun knob => knob.2 = name) =
      [("temperature", "temperature"), ("top_p", "top_p")].filter (fun knob => knob.2 = name) ++
        ([("seed", "seed"), ("stop", "stop")].filter (fun knob => knob.2 = name) ++
          (kindKnobs kind).filter fun knob => knob.2 = name) := by
    have known : plainKnobs kind = [("temperature", "temperature"), ("top_p", "top_p")] ++
        ([("max_tokens", "max_tokens"), ("num_predict", "max_tokens")] ++
          ([("seed", "seed"), ("stop", "stop")] ++ kindKnobs kind)) := by
      cases kind <;> rfl
    have none : [("max_tokens", "max_tokens"), ("num_predict", "max_tokens")].filter
        (fun knob => decide (knob.2 = name)) = [] := by
      simp [Ne.symm notLimit]
    rw [known, List.filter_append, List.filter_append, List.filter_append, none, List.nil_append]
  rw [parts, List.foldl_append, List.foldl_append, beforeThink, fieldOf_offers]
  have common : injectCommon profile raw =
      [("seed", "seed"), ("stop", "stop")].foldl (fun raw knob => offer profile knob.1 knob.2 raw)
        (offerMaxTokens profile ([("temperature", "temperature"), ("top_p", "top_p")].foldl
          (fun raw knob => offer profile knob.1 knob.2 raw) raw)) := rfl
  rw [common, fieldOf_offers, limited, fieldOf_offers]

theorem filter_plainKnobs {plain : String × String} (inside : plain ∈ plainKnobs kind)
    (notLimit : plain.2 ≠ "max_tokens") :
    ((plainKnobs kind).filter fun knob => knob.2 = plain.2) = [plain] := by
  have each : ∀ plain ∈ plainKnobs kind, plain.2 ≠ "max_tokens" →
      ((plainKnobs kind).filter fun knob => decide (knob.2 = plain.2)) = [plain] := by
    cases kind <;> decide
  exact each plain inside notLimit

theorem fieldOf_beforeThink_think (think : key ∈ thinkKeys) :
    fieldOf (beforeThink profile kind raw) key = fieldOf raw key := by
  have notLimit : key ≠ "max_tokens" := by
    rintro rfl
    exact absurd think (by decide)
  have none : ((plainKnobs kind).filter fun knob => decide (knob.2 = key)) = [] := by
    rw [List.filter_eq_nil_iff]
    intro knob inside here
    rw [decide_eq_true_eq] at here
    subst here
    exact plain_not_think knob inside think
  rw [fieldOf_beforeThink notLimit, none]
  rfl

/-- The limit of the answer, as it is before `think`. -/
theorem fieldOf_beforeThink_limit : fieldOf (beforeThink profile kind raw) "max_tokens" =
    if (fieldOf profile.values "max_tokens").isSome ∧
        has raw "max_tokens" profile "max_tokens" = false then
      round profile (fieldOf raw "max_tokens") ("max_tokens", "max_tokens")
    else round profile (fieldOf raw "max_tokens") ("num_predict", "max_tokens") := by
  have none : ((kindKnobs kind).filter fun knob => decide (knob.2 = "max_tokens")) = [] := by
    cases kind <;> decide
  have same : fieldOf (offer profile "top_p" "top_p" (offer profile "temperature" "temperature" raw))
      "max_tokens" = fieldOf raw "max_tokens" := by
    rw [fieldOf_offer_ne (by decide), fieldOf_offer_ne (by decide)]
  rw [beforeThink, fieldOf_offers, none, List.foldl_nil, injectCommon,
    fieldOf_offer_ne (by decide), fieldOf_offer_ne (by decide), offerMaxTokens]
  have free : has (offer profile "top_p" "top_p" (offer profile "temperature" "temperature" raw))
      "max_tokens" profile "max_tokens" = has raw "max_tokens" profile "max_tokens" := by
    rw [has, has, same]
  rw [free]
  split
  · rw [fieldOf_offer, if_pos rfl, same]
  · rw [fieldOf_offer, if_pos rfl, same]

/-- The keys of its own that a profile has are members of its text. -/
theorem extra_of_readMembers {fields : Fields}
    (reads : fields.foldlM (readMember outside) profile = some next) :
    ∃ own, own.Sublist fields ∧ next.extra = profile.extra ++ own := by
  induction fields generalizing profile with
  | nil =>
      cases reads
      exact ⟨[], List.nil_sublist _, (List.append_nil _).symm⟩
  | cons member rest ih =>
      rw [List.foldlM_cons] at reads
      rcases Option.bind_eq_some_iff.mp reads with ⟨between, first, others⟩
      rcases ih others with ⟨own, part, extra⟩
      have step : between.extra = profile.extra ∨ between.extra = profile.extra ++ [member] := by
        rw [readMember] at first
        split at first
        · split at first
          · rcases Option.map_eq_some_iff.mp first with ⟨locked, _, rfl⟩
            exact Or.inl rfl
          · cases first
        · split at first
          · cases first
            exact Or.inr rfl
          · rcases Option.bind_eq_some_iff.mp first with ⟨wanted, _, checks⟩
            split at checks
            · cases checks
              exact Or.inl rfl
            · cases checks
      rcases step with same | added
      · exact ⟨own, part.cons member, by rw [extra, same]⟩
      · exact ⟨member :: own, part.cons_cons member, by rw [extra, added, List.append_assoc]; rfl⟩

theorem nodup_extra (accepted : parseProfile outside codec text = some profile) :
    (profile.extra.map Prod.fst).Nodup := by
  simp only [parseProfile] at accepted
  split at accepted
  · cases accepted
    exact List.nodup_nil
  · rcases Option.bind_eq_some_iff.mp accepted with ⟨fields, document, reads⟩
    rw [Option.filter_eq_some_iff] at reads
    have self : (fields.map Prod.fst).Nodup := by
      split at document
      · cases document
        exact List.nodup_nil
      · exact (loadFields_self.mp (decode_self document)).1
    rcases extra_of_readMembers reads.1 with ⟨own, part, extra⟩
    rw [extra]
    exact (part.map Prod.fst).nodup self

/-- A locked key of its own that a profile has is sent. -/
theorem fieldOf_injectExtra_locked (nodup : (profile.extra.map Prod.fst).Nodup)
    (found : fieldOf profile.extra knob = some value) (locked : profile.locks knob = true) :
    fieldOf (injectExtra profile raw) knob = some value := by
  have stays (members : List (String × Json)) (absent : knob ∉ members.map Prod.fst)
      (raw : Fields) :
      fieldOf (members.foldl (fun raw member =>
        if (fieldOf raw member.1).isNone || profile.locks member.1 then
          setField raw member.1 member.2
        else raw) raw) knob = fieldOf raw knob := by
    induction members generalizing raw with
    | nil => rfl
    | cons member rest ih =>
        rw [List.map_cons, List.mem_cons, not_or] at absent
        rw [List.foldl_cons, ih absent.2]
        split
        · exact fieldOf_setField_ne raw _ absent.1
        · rfl
  have each (members : List (String × Json)) (nodup : (members.map Prod.fst).Nodup)
      (inside : (knob, value) ∈ members) (raw : Fields) :
      fieldOf (members.foldl (fun raw member =>
        if (fieldOf raw member.1).isNone || profile.locks member.1 then
          setField raw member.1 member.2
        else raw) raw) knob = some value := by
    induction members generalizing raw with
    | nil => cases inside
    | cons member rest ih =>
        rw [List.map_cons, List.nodup_cons] at nodup
        rw [List.foldl_cons]
        rcases List.mem_cons.mp inside with rfl | later
        · rw [stays rest nodup.1]
          simp only [locked, Bool.or_true, if_true]
          exact fieldOf_setField_self raw knob value
        · exact ih nodup.2 later _
  exact each profile.extra nodup (mem_of_fieldOf found) raw

end Parts

end MikroLLM.Params
