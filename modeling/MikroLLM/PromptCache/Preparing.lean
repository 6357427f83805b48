import MikroLLM.PromptCache.Deciding

/-!
# The last pass, applied again

What `Prepare` makes of the map that it reads has the model, the usage and the
hint that it wants, so that there is nothing to do the second time.
-/

namespace MikroLLM.PromptCache

open Domain Go

section Results

variable {text : TextLibrary} {codec : Codec} {input : PrepInput} {document raw written : Fields}
  {key : String}

/-- The map that `Prepare` makes of the one that it reads. -/
def result (text : TextLibrary) (input : PrepInput) (raw : Fields) : Fields :=
  if input.kind = .openrouter then
    (cacheControl text input (prepared input.sendAs raw)).getD (prepared input.sendAs raw)
  else (sendsAs raw input.sendAs).getD raw

theorem result_of_leaves (leaves : Leaves text input raw) : result text input raw = raw := by
  rcases leaves with ⟨unnamed, rest⟩
  rw [result]
  split
  · rename_i openrouter
    rcases rest openrouter with ⟨uncounted, unhinted⟩
    have same : prepared input.sendAs raw = raw := by
      simp [prepared, unnamed, uncounted]
    rw [same, unhinted, Option.getD_none]
  · rw [unnamed, Option.getD_none]

theorem result_loads (self : loadFields raw = some raw) :
    loadFields (result text input raw) = some (result text input raw) := by
  have loads := prepared_loads self input.sendAs
  rw [result]
  split
  · cases changed : cacheControl text input (prepared input.sendAs raw) with
    | none => exact loads
    | some written => exact cacheControl_loads loads changed
  · cases changed : sendsAs raw input.sendAs with
    | none => exact self
    | some written => exact sendsAs_loads self changed

/-- The three edits, none of which has anything to write exactly if the pass leaves the body. -/
theorem leaves_iff_openrouter (openrouter : input.kind = .openrouter) : Leaves text input raw ↔
    (sendsAs raw input.sendAs).isNone ∧
      (ensureIncludeUsage ((sendsAs raw input.sendAs).getD raw)).isNone ∧
      (cacheControl text input (prepared input.sendAs raw)).isNone := by
  simp only [Leaves, openrouter, true_imp_iff, Option.isNone_iff_eq_none, prepared]
  constructor
  · rintro ⟨unnamed, uncounted, unhinted⟩
    simp [unnamed, uncounted, unhinted]
  · rintro ⟨unnamed, uncounted, unhinted⟩
    rw [unnamed, Option.getD_none] at uncounted unhinted
    rw [uncounted, Option.getD_none] at unhinted
    exact ⟨unnamed, uncounted, unhinted⟩

/-- What `Prepare` does with a body that it can read. -/
theorem prepare_decoded (decodes : codec.decode input.body = some raw) :
    Leaves text input raw ∧ prepare text codec input = input.body ∧
        reports text codec input = false ∨
      ¬Leaves text input raw ∧ prepare text codec input = codec.marshal (result text input raw) := by
  by_cases openrouter : input.kind = .openrouter
  · rw [leaves_iff_openrouter openrouter, prepare_openrouter openrouter decodes, result,
      if_pos openrouter]
    split
    · rename_i unchanged
      refine Or.inl ⟨unchanged, rfl, ?_⟩
      rcases (leaves_iff_openrouter openrouter).mpr unchanged with ⟨unnamed, rest⟩
      rcases rest openrouter with ⟨uncounted, unhinted⟩
      simp [reports, openrouter, decodes, unnamed, uncounted, unhinted]
    · rename_i changes
      exact Or.inr ⟨changes, rfl⟩
  · have same : Leaves text input raw ↔ sendsAs raw input.sendAs = none := by
      simp [Leaves, openrouter]
    rw [same, result, if_neg openrouter]
    cases changed : sendsAs raw input.sendAs with
    | none =>
        left
        simp [prepare, reports, rewriteModel, openrouter, decodes, changed]
    | some written =>
        right
        simp [prepare, rewriteModel, openrouter, decodes, changed]

/-- What is read from the body that comes out. -/
theorem decode_prepared (decodes : codec.decode input.body = some raw) :
    ∃ next, codec.decode (prepare text codec input) = some next ∧
      Alike (.object next) (.object (result text input raw)) := by
  have self : loadFields raw = some raw := decode_self decodes
  rcases prepare_decoded decodes with ⟨leaves, same, _⟩ | ⟨_, writes⟩
  · rw [same, result_of_leaves leaves]
    exact ⟨raw, decodes, fun _ => rfl⟩
  · rw [writes]
    exact decode_marshal (result_loads self)

end Results

section Fields

variable {text : TextLibrary} {input : PrepInput} {raw written : Fields} {key : String}

theorem fieldOf_sendsAs (differs : key ≠ "model") :
    fieldOf ((sendsAs raw input.sendAs).getD raw) key = fieldOf raw key := by
  cases changed : sendsAs raw input.sendAs with
  | none => rfl
  | some written =>
      simp only [sendsAs, Option.ite_none_left_eq_some, Option.some.injEq] at changed
      rcases changed with ⟨_, _, rfl⟩
      exact fieldOf_setField_ne raw _ differs

theorem fieldOf_ensureIncludeUsage (differs : key ≠ "stream_options") :
    fieldOf ((ensureIncludeUsage raw).getD raw) key = fieldOf raw key := by
  cases changed : ensureIncludeUsage raw with
  | none => rfl
  | some written =>
      simp only [ensureIncludeUsage, Option.ite_none_right_eq_some] at changed
      rcases changed with ⟨_, changed⟩
      split at changed
      · simp only [Option.ite_none_left_eq_some, Option.some.injEq] at changed
        rcases changed with ⟨_, rfl⟩
        exact fieldOf_setField_ne raw _ differs
      · cases changed
      · rw [Option.some.injEq] at changed
        subst changed
        exact fieldOf_setField_ne raw _ differs

theorem fieldOf_prepared (notModel : key ≠ "model") (notOptions : key ≠ "stream_options") :
    fieldOf (prepared input.sendAs raw) key = fieldOf raw key := by
  rw [prepared, fieldOf_ensureIncludeUsage notOptions, fieldOf_sendsAs notModel]

/-- The model that goes out. -/
theorem field_model_sendsAs : field ((sendsAs raw input.sendAs).getD raw) "model" =
    if input.sendAs = "" then field raw "model" else .string input.sendAs := by
  rw [sendsAs]
  split
  · rfl
  · split
    · rename_i same
      rw [Option.getD_none, same]
    · exact field_setField_self raw "model" _

theorem field_model_prepared : field (prepared input.sendAs raw) "model" =
    if input.sendAs = "" then field raw "model" else .string input.sendAs := by
  rw [prepared, field, fieldOf_ensureIncludeUsage (by decide), ← field, field_model_sendsAs]

theorem modelName_eq (named : field raw "model" = field written "model") :
    modelName raw = modelName written := by
  rw [modelName, modelName, named]

theorem modelName_prepared : modelName (prepared input.sendAs raw) =
    if input.sendAs = "" then modelName raw else input.sendAs := by
  have model := @field_model_prepared input raw
  split at model
  · rename_i unnamed
    rw [if_pos unnamed, modelName_eq model]
  · rename_i named
    rw [if_neg named, modelName, model]

/-- When a hint is added. -/
theorem cacheControl_eq_hinted (raw : Fields) : cacheControl text input raw =
    if hasCacheHints raw = false ∧ (input.mode = .on ∨ input.mode = .auto ∧
        needsAnthropicTopLevel text input.provider input.sendAs
          (if input.origModel = "" then modelName raw else input.origModel) = true) then
      some (hinted raw)
    else none := by
  rw [cacheControl, wantsCacheControl, hinted, modelName]
  cases input.mode with
  | off => simp
  | on => simp
  | auto =>
      by_cases named : input.origModel = ""
      · simp only [named, if_true]
        cases field raw "model" <;> simp
      · simp [named]

theorem cacheControl_eq_none_iff (raw : Fields) :
    cacheControl text input (prepared input.sendAs raw) = none ↔
      ¬(hasCacheHints (prepared input.sendAs raw) = false ∧ ModeWants text input raw) := by
  have name : (if input.origModel = "" then modelName (prepared input.sendAs raw)
      else input.origModel) = originalName input raw := by
    rw [originalName, modelName_prepared]
    by_cases named : input.origModel = ""
    · by_cases sends : input.sendAs = ""
      · simp [named, sends]
      · simp [named, sends]
    · simp [named]
  rw [cacheControl_eq_hinted, name, ModeWants]
  split
  · rename_i wanted
    simp [wanted]
  · rename_i unwanted
    simp [unwanted]

end Fields

section Again

variable {text : TextLibrary} {input : PrepInput} {document raw written : Fields} {key : String}

/-- What `ensureIncludeUsage` writes: the options of the stream, which were without the member. -/
theorem ensureIncludeUsage_writes (changed : ensureIncludeUsage raw = some written) :
    ∃ options, written = setField raw "stream_options"
        (.object (setField options "include_usage" (.bool true))) ∧
      fieldOf options "include_usage" = none ∧ ∀ step rest,
        (Json.object raw).faceAt (.key "stream_options" :: step :: rest) =
          (Json.object options).faceAt (step :: rest) := by
  simp only [ensureIncludeUsage, Option.ite_none_right_eq_some] at changed
  rcases changed with ⟨_, changed⟩
  split at changed
  · rename_i options found
    simp only [Option.ite_none_left_eq_some, Option.some.injEq,
      Option.not_isSome_iff_eq_none] at changed
    rcases changed with ⟨missing, rfl⟩
    refine ⟨options, rfl, missing, ?_⟩
    intro step rest
    rw [faceAt_key, found, Option.bind_some]
  · cases changed
  · rename_i missing
    rw [Option.some.injEq] at changed
    subst changed
    refine ⟨[], rfl, rfl, ?_⟩
    intro step rest
    rw [faceAt_key, missing, Option.bind_none, faceAt_cons]
    cases step <;> rfl

/-- No other place has another face. -/
theorem faceAt_ensureIncludeUsage {path : Path} (notOptions : path ≠ [.key "stream_options"])
    (notUsage : path ≠ [.key "stream_options", .key "include_usage"]) :
    (Json.object ((ensureIncludeUsage raw).getD raw)).faceAt path =
      (Json.object raw).faceAt path := by
  cases changed : ensureIncludeUsage raw with
  | none => rfl
  | some written =>
      rcases ensureIncludeUsage_writes changed with ⟨options, rfl, missing, same⟩
      rw [Option.getD_some]
      rcases path with _ | ⟨first | position, rest⟩
      · rfl
      · by_cases here : first = "stream_options"
        · subst here
          rcases rest with _ | ⟨step, rest⟩
          · exact absurd rfl notOptions
          · rw [same, faceAt_setField_self]
            cases step with
            | index position => rfl
            | key name =>
                by_cases usage : name = "include_usage"
                · subst usage
                  rw [faceAt_setField_self, faceAt_key, missing, Option.bind_none]
                  -- below a boolean there is nothing
                  rcases rest with _ | ⟨step, rest⟩
                  · exact absurd rfl notUsage
                  · rw [faceAt_cons]
                    cases step <;> rfl
                · exact faceAt_setField_ne usage options _ rest
        · exact faceAt_setField_ne here raw _ rest
      · rfl

theorem faceAt_sendsAs {step : Step} {rest : Path} (other : step ≠ .key "model") :
    (Json.object ((sendsAs raw input.sendAs).getD raw)).faceAt (step :: rest) =
      (Json.object raw).faceAt (step :: rest) := by
  cases step with
  | index position => rfl
  | key name =>
      have differs : name ≠ "model" := by
        rintro rfl
        exact other rfl
      rw [faceAt_key, faceAt_key, fieldOf_sendsAs differs]

/-- Below a model that was written there is nothing. -/
theorem faceAt_renamed (renames : Renames input raw) (step : Step) (rest : Path) :
    (Json.object (prepared input.sendAs raw)).faceAt (.key "model" :: step :: rest) = none := by
  have model := @field_model_prepared input raw
  rw [if_neg renames.1] at model
  have found : fieldOf (prepared input.sendAs raw) "model" = some (.string input.sendAs) := by
    rw [field] at model
    cases there : fieldOf (prepared input.sendAs raw) "model" with
    | none =>
        rw [there] at model
        cases model
    | some value =>
        rw [there, Option.getD_some] at model
        rw [model]
  rw [faceAt_key, found, Option.bind_some, faceAt_string]

theorem asksUsage_congr (stream : fieldOf written "stream" = fieldOf raw "stream")
    (options : fieldOf written "stream_options" = fieldOf raw "stream_options") :
    AsksUsage written ↔ AsksUsage raw := by
  rw [AsksUsage, AsksUsage, isStream, isStream, field, field, stream, options]

theorem not_asksUsage (raw : Fields) : ¬AsksUsage ((ensureIncludeUsage raw).getD raw) := by
  cases changed : ensureIncludeUsage raw with
  | none => exact ensureIncludeUsage_eq_none_iff.mp changed
  | some written =>
      rcases ensureIncludeUsage_writes changed with ⟨options, rfl, _⟩
      rintro ⟨_, missing | ⟨other, found, missing⟩⟩
      · rw [Option.getD_some, fieldOf_setField_self] at missing
        cases missing
      · rw [Option.getD_some, fieldOf_setField_self, Option.some.injEq, Json.object.injEq] at found
        rw [← found, fieldOf_setField_self] at missing
        cases missing

theorem hasCacheHints_hinted (raw : Fields) : hasCacheHints (hinted raw) = true := by
  have there : fieldOf (hinted raw) "cache_control" =
      some (.object [("type", .string "ephemeral")]) := fieldOf_setField_self raw _ _
  simp [hasCacheHints, there]

theorem fieldOf_hinted (differs : key ≠ "cache_control") :
    fieldOf (hinted raw) key = fieldOf raw key :=
  fieldOf_setField_ne raw _ differs

/-- The map with the hint, where one is added. -/
theorem cacheControl_cases (raw : Fields) : cacheControl text input raw = none ∨
    cacheControl text input raw = some (hinted raw) := by
  rw [cacheControl_eq_hinted]
  exact (ite_eq_or_eq _ _ _).symm

/-- The second time there is nothing to write. -/
theorem leaves_result (raw : Fields) : Leaves text input (result text input raw) := by
  have unnamed (written : Fields) (model : fieldOf written "model" =
      fieldOf ((sendsAs raw input.sendAs).getD raw) "model") :
      sendsAs written input.sendAs = none := by
    have sent := @field_model_sendsAs input raw
    rw [field, ← model, ← field] at sent
    rw [sendsAs_eq_none_iff]
    rintro ⟨named, differs⟩
    rw [if_neg named] at sent
    exact differs sent
  by_cases openrouter : input.kind = .openrouter
  · have model : fieldOf (prepared input.sendAs raw) "model" =
        fieldOf ((sendsAs raw input.sendAs).getD raw) "model" :=
      fieldOf_ensureIncludeUsage (by decide)
    have counted : ¬AsksUsage (prepared input.sendAs raw) := not_asksUsage _
    rw [result, if_pos openrouter]
    rcases @cacheControl_cases text input (prepared input.sendAs raw) with none' | some'
    · rw [none', Option.getD_none]
      exact ⟨unnamed _ model, fun _ => ⟨ensureIncludeUsage_eq_none_iff.mpr counted, none'⟩⟩
    · rw [some', Option.getD_some]
      refine ⟨unnamed _ ?_, fun _ => ⟨?_, ?_⟩⟩
      · rw [fieldOf_hinted (by decide), model]
      · rw [ensureIncludeUsage_eq_none_iff, asksUsage_congr (fieldOf_hinted (by decide))
          (fieldOf_hinted (by decide))]
        exact counted
      · rw [cacheControl_eq_hinted, hasCacheHints_hinted]
        simp
  · rw [result, if_neg openrouter]
    exact ⟨unnamed _ rfl, fun isOpenrouter => absurd isOpenrouter openrouter⟩

end Again

end MikroLLM.PromptCache
