import MikroLLM.Params.Frame

/-!
# What `Inject` keeps

The numbers of the client stay the literals that they are, so that everything that
is not set is kept. What is not a single object is kept unless it starts with one,
or with null.
-/

namespace MikroLLM.Params

open Domain Go

section Kept

variable {profile : Profile} {kind : BackendKind} {raw arguments : Fields} {knob key : String}
  {value think : Json}

theorem kept_field (self : keptFields raw = raw) (key : String) :
    (field raw key).kept = field raw key := by
  rw [field]
  cases found : fieldOf raw key with
  | none => rfl
  | some value => exact (keptFields_self.mp self).2 _ (mem_of_fieldOf found)

theorem kept_innerOf (self : keptFields raw = raw) (key : String) :
    keptFields (innerOf raw key) = innerOf raw key := by
  have member := kept_field self key
  rw [innerOf]
  split
  · rename_i inner found
    rw [found] at member
    exact kept_object_self.mp member
  · rfl

theorem Profile.Sound.value_kept (sound : profile.Sound)
    (found : fieldOf profile.values knob = some value) : value.kept = value :=
  kept_of_load (sound.values_load _ (mem_of_fieldOf found))

theorem kept_offer (sound : profile.Sound) (self : keptFields raw = raw) :
    keptFields (offer profile knob key raw) = offer profile knob key raw := by
  rw [offer]
  split
  · rename_i value found
    split
    · exact self
    · exact keptFields_setField self (sound.value_kept found)
  · exact self

theorem kept_foldl_offer (sound : profile.Sound) (knobs : List String)
    (self : keptFields raw = raw) :
    keptFields (knobs.foldl (fun raw knob => offer profile knob knob raw) raw) =
      knobs.foldl (fun raw knob => offer profile knob knob raw) raw := by
  induction knobs generalizing raw with
  | nil => exact self
  | cons knob rest ih => exact ih (kept_offer sound self)

theorem kept_injectCommon (sound : profile.Sound) (self : keptFields raw = raw) :
    keptFields (injectCommon profile raw) = injectCommon profile raw := by
  apply kept_offer sound
  apply kept_offer sound
  rw [offerMaxTokens]
  split
  · exact kept_offer sound (kept_offer sound (kept_offer sound self))
  · exact kept_offer sound (kept_offer sound (kept_offer sound self))

theorem kept_deleteNestedThink (self : keptFields raw = raw) :
    keptFields (deleteNestedThink raw) = deleteNestedThink raw := by
  have member := kept_field self "reasoning"
  rw [deleteNestedThink]
  split
  · rename_i inner found
    rw [found, kept_object_self] at member
    simp only
    split
    · exact keptFields_deleteField self
    · apply keptFields_setField self
      rw [kept_object_self]
      exact keptFields_deleteField (keptFields_deleteField member)
  · exact self

theorem kept_applyEffort (self : keptFields raw = raw) :
    keptFields (applyEffort profile kind think raw) = applyEffort profile kind think raw := by
  have cleared : keptFields (if profile.locks "think" then
        deleteNestedThink (deleteField raw "reasoning_effort") else raw) =
      if profile.locks "think" then
        deleteNestedThink (deleteField raw "reasoning_effort") else raw := by
    split
    · exact kept_deleteNestedThink (keptFields_deleteField self)
    · exact self
  simp only [applyEffort]
  generalize (if profile.locks "think" then
    deleteNestedThink (deleteField raw "reasoning_effort") else raw) = next at cleared ⊢
  split
  · exact cleared
  · split
    · exact cleared
    · exact keptFields_setField cleared rfl

theorem kept_reasoning (think : Json) : (reasoning think).kept = reasoning think := by
  rw [reasoning]
  split <;> rfl

theorem kept_applyOpenRouterReasoning (self : keptFields raw = raw) :
    keptFields (applyOpenRouterReasoning profile think raw) =
      applyOpenRouterReasoning profile think raw := by
  rw [applyOpenRouterReasoning]
  split
  · exact keptFields_setField (keptFields_deleteField (kept_deleteNestedThink self))
      (kept_reasoning think)
  · split
    · exact self
    · split
      · exact self
      · exact keptFields_setField self (kept_reasoning think)

theorem kept_setThinking (self : keptFields arguments = arguments) :
    keptFields (setThinking think arguments) = setThinking think arguments := by
  cases think with
  | bool value => exact keptFields_setField self rfl
  | string level =>
      rw [setThinking]
      split
      · exact keptFields_setField self rfl
      · exact keptFields_setField self rfl
  | null | number _ | array _ | object _ => exact self

theorem kept_applyTckThink (self : keptFields raw = raw) :
    keptFields (applyTckThink profile think raw) = applyTckThink profile think raw := by
  simp only [applyTckThink]
  split
  · exact self
  · split
    · exact self
    · apply keptFields_setField self
      rw [kept_object_self]
      exact kept_setThinking (kept_innerOf self _)

theorem kept_withKnob {write : Json → Fields → Fields} (self : keptFields raw = raw)
    (writes : ∀ value, keptFields (write value raw) = write value raw) :
    keptFields (withKnob profile knob write raw) = withKnob profile knob write raw := by
  rw [withKnob]
  split
  · exact writes _
  · exact self

theorem kept_injectKind (sound : profile.Sound) (kind : BackendKind)
    (self : keptFields raw = raw) :
    keptFields (injectKind profile raw kind) = injectKind profile raw kind := by
  cases kind with
  | ollama | ollamaCloud => exact kept_withKnob self fun _ => kept_applyEffort self
  | openrouter =>
      have offered := kept_foldl_offer sound openRouterKnobs self
      exact kept_withKnob offered fun _ => kept_applyOpenRouterReasoning offered
  | vllm | lmstudio =>
      have offered := @kept_offer profile _ "repeat_penalty" "repetition_penalty" sound
        (kept_foldl_offer sound vllmKnobs self)
      exact kept_withKnob offered fun _ => kept_applyTckThink offered
  | opencomfy | codex | grok | hub => exact self

theorem kept_injectExtra (sound : profile.Sound) (self : keptFields raw = raw) :
    keptFields (injectExtra profile raw) = injectExtra profile raw := by
  have each (members : List (String × Json)) (part : ∀ member ∈ members, member ∈ profile.extra)
      (raw : Fields) (self : keptFields raw = raw) :
      keptFields (members.foldl (fun raw member =>
        if (fieldOf raw member.1).isNone || profile.locks member.1 then
          setField raw member.1 member.2
        else raw) raw) = members.foldl (fun raw member =>
        if (fieldOf raw member.1).isNone || profile.locks member.1 then
          setField raw member.1 member.2
        else raw) raw := by
    induction members generalizing raw with
    | nil => exact self
    | cons member rest ih =>
        rw [List.forall_mem_cons] at part
        rw [List.foldl_cons]
        apply ih part.2
        split
        · exact keptFields_setField self (kept_of_load (sound.extra_load member part.1))
        · exact self
  exact each profile.extra (fun _ inside => inside) raw self

theorem kept_options (sound : profile.Sound) (order : List (String × String))
    {state : Fields × Bool} (self : keptFields state.1 = state.1) :
    keptFields (order.foldl (injectOption profile) state).1 =
      (order.foldl (injectOption profile) state).1 := by
  induction order generalizing state with
  | nil => exact self
  | cons knob rest ih =>
      apply ih
      rw [injectOption]
      split
      · exact self
      · rename_i value found
        split
        · exact keptFields_setField self (sound.value_kept found)
        · exact self

theorem kept_injected (sound : profile.Sound) (kind : BackendKind) (route : Route)
    (self : keptFields raw = raw) :
    keptFields (injected profile kind route raw) = injected profile kind route raw := by
  cases route with
  | openAI => exact kept_injectExtra sound (kept_injectKind sound kind (kept_injectCommon sound self))
  | native order isOrder =>
      apply kept_injectExtra sound
      apply kept_offer sound
      split
      · apply keptFields_setField self
        rw [kept_object_self]
        exact kept_options sound order (kept_innerOf self "options")
      · exact self

end Kept

section Bodies

variable {codec : NumberCodec} {profile : Profile} {kind : BackendKind} {route : Route}
  {body : List UInt8} {document : Fields}

theorem inject_object (filled : profile.isEmpty = false)
    (parsed : codec.parse body = .json [.object document]) :
    inject codec profile kind route body =
      some (codec.marshal (injected profile kind route (keptFields document))) := by
  simp [inject, filled, codec.first_json parsed]

/-- What `Inject` does with a body that is an object. -/
theorem inject_kept (sound : profile.Sound) (parsed : codec.parse body = .json [.object document]) :
    ∃ out, inject codec profile kind route body = some out ∧
      Kept codec.toCodec (staying (sets profile kind route (keptFields document))) document
        body out := by
  cases filled : profile.isEmpty with
  | true => exact ⟨body, by simp [inject, filled], Or.inl rfl⟩
  | false =>
      rcases codec.parse_kept _ (kept_injected sound kind route (keptFields_keptFields document))
        with ⟨written, parses, alike⟩
      refine ⟨_, inject_object filled parsed, Or.inr ⟨written, parses, ?_⟩⟩
      intro path target leads
      rw [staying, Option.ite_none_left_eq_some, Option.some.injEq, Bool.not_eq_true] at leads
      rcases leads with ⟨free, rfl⟩
      rw [alike, frames_injected sound kind route _ path free]
      exact faceAt_kept (.object document) path

/-- A body that is no single object, and that `Inject` gives back: it starts with something else
than an object, and with null only where there is nothing to write. -/
def LeavesOther (codec : NumberCodec) (profile : Profile) (kind : BackendKind) (route : Route)
    (body : List UInt8) : Prop :=
  profile.isEmpty = true ∨
    match codec.first body with
    | some (.object _) => False
    | some .null => injected profile kind route [] = [] ∧ body = bytesOf "null"
    | _ => True

theorem inject_other_iff (sound : profile.Sound)
    (other : ∀ document, codec.parse body ≠ .json [.object document]) :
    inject codec profile kind route body = some body ↔
      LeavesOther codec profile kind route body := by
  cases filled : profile.isEmpty with
  | true => simp [inject, LeavesOther, filled]
  | false =>
      simp only [inject, LeavesOther, filled, Bool.false_eq_true, if_false, false_or]
      cases begins : codec.first body with
      | none => simp
      | some document =>
          cases document with
          | object fields =>
              simp only [Option.some.injEq, iff_false]
              intro same
              rcases codec.parse_kept _ (kept_injected sound kind route
                (keptFields_keptFields fields)) with ⟨written, parses, _⟩
              rw [same] at parses
              exact other written parses
          | null =>
              simp only
              split
              · rename_i nothing
                simp [nothing, eq_comm]
              · rename_i something
                simp [something]
          | bool _ | number _ | array _ | string _ => simp

end Bodies

end MikroLLM.Params
