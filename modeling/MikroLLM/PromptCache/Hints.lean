import MikroLLM.PromptCache.Prepare

/-!
# When the provider decides

`Prepare` reads the provider for one purpose, the cache hint that it adds in the
mode `auto` to a body that has none. Two providers that differ on this give two
different bodies.
-/

namespace MikroLLM.PromptCache

open Domain Go

section Bodies

variable {text : TextLibrary} {codec : Codec} {raw written : Fields}

/-- The body that is left before the cache hint. -/
def prepared (sendAs : String) (raw : Fields) : Fields :=
  let named := (sendsAs raw sendAs).getD raw
  (ensureIncludeUsage named).getD named

theorem sendsAs_loads {sendAs : String} (self : loadFields raw = some raw)
    (changed : sendsAs raw sendAs = some written) : loadFields written = some written := by
  simp only [sendsAs, Option.ite_none_left_eq_some, Option.some.injEq] at changed
  rcases changed with ⟨_, _, rfl⟩
  exact loadFields_setField self rfl

theorem ensureIncludeUsage_loads (self : loadFields raw = some raw)
    (changed : ensureIncludeUsage raw = some written) : loadFields written = some written := by
  simp only [ensureIncludeUsage, Option.ite_none_right_eq_some] at changed
  rcases changed with ⟨_, changed⟩
  split at changed
  · rename_i options found
    simp only [Option.ite_none_left_eq_some, Option.some.injEq] at changed
    rcases changed with ⟨_, rfl⟩
    have optionsLoad : loadFields options = some options :=
      load_object_self.mp ((loadFields_self.mp self).2 _ (mem_of_fieldOf found))
    apply loadFields_setField self
    exact load_object_self.mpr (loadFields_setField optionsLoad rfl)
  · exact absurd changed (by simp)
  · rw [Option.some.injEq] at changed
    subst changed
    exact loadFields_setField self rfl

theorem prepared_loads (self : loadFields raw = some raw) (sendAs : String) :
    loadFields (prepared sendAs raw) = some (prepared sendAs raw) := by
  have named : loadFields ((sendsAs raw sendAs).getD raw) = some ((sendsAs raw sendAs).getD raw) := by
    cases changed : sendsAs raw sendAs with
    | none => exact self
    | some written => exact sendsAs_loads self changed
  simp only [prepared]
  cases changed : ensureIncludeUsage ((sendsAs raw sendAs).getD raw) with
  | none => exact named
  | some written => exact ensureIncludeUsage_loads named changed

end Bodies

section Hinting

variable {text : TextLibrary} {codec : Codec} {input : PrepInput} {raw : Fields}

/-- The provider, or one of the names, is one of Anthropic's. -/
def PrepInput.anthropic (text : TextLibrary) (input : PrepInput) : Bool :=
  needsAnthropicTopLevel text input.provider input.sendAs input.origModel

/-- The member that is added. -/
def hinted (raw : Fields) : Fields :=
  setField raw "cache_control" (.object [("type", .string "ephemeral")])

theorem hinted_loads (self : loadFields raw = some raw) :
    loadFields (hinted raw) = some (hinted raw) :=
  loadFields_setField self rfl

theorem hinted_not_alike (unhinted : hasCacheHints raw = false) :
    ¬Alike (.object (hinted raw)) (.object raw) := by
  intro alike
  have missing : fieldOf raw "cache_control" = none := by
    simp only [hasCacheHints, Bool.or_eq_false_iff, Option.isSome_eq_false_iff,
      Option.isNone_iff_eq_none] at unhinted
    exact unhinted.1.1
  have face := alike [.key "cache_control"]
  rw [hinted, faceAt_setField_self, faceAt_key, missing] at face
  cases face

/-- A hint that does not depend on the mode `auto` does not depend on the provider. -/
theorem cacheControl_eq (named : input.origModel ≠ "") (raw : Fields) :
    cacheControl text input raw =
      if hasCacheHints raw = false ∧
          (input.mode = .on ∨ input.mode = .auto ∧ input.anthropic text = true) then
        some (hinted raw)
      else none := by
  simp only [cacheControl, wantsCacheControl, if_neg named, hinted, PrepInput.anthropic]
  cases input.mode <;> simp

theorem prepare_openrouter (kind : input.kind = .openrouter)
    (decodes : codec.decode input.body = some raw) :
    prepare text codec input =
      if (sendsAs raw input.sendAs).isNone ∧
          (ensureIncludeUsage ((sendsAs raw input.sendAs).getD raw)).isNone ∧
          (cacheControl text input (prepared input.sendAs raw)).isNone then input.body
      else codec.marshal ((cacheControl text input (prepared input.sendAs raw)).getD
        (prepared input.sendAs raw)) := by
  simp [prepare, kind, decodes, prepared]

/-- What an upstream reads. -/
theorem decode_prepare (named : input.origModel ≠ "") (kind : input.kind = .openrouter)
    (decodes : codec.decode input.body = some raw) :
    ∃ next, codec.decode (prepare text codec input) = some next ∧
      Alike (.object next) (.object ((cacheControl text input (prepared input.sendAs raw)).getD
        (prepared input.sendAs raw))) := by
  have self : loadFields raw = some raw := decode_self decodes
  have loads := prepared_loads self input.sendAs
  rw [prepare_openrouter kind decodes]
  split
  · rename_i unchanged
    simp only [Option.isNone_iff_eq_none] at unchanged
    rcases unchanged with ⟨unnamed, uncounted, unhinted⟩
    rw [unnamed] at uncounted
    refine ⟨raw, decodes, ?_⟩
    rw [unhinted]
    simp only [prepared, unnamed, Option.getD_none, uncounted] at uncounted ⊢
    exact fun _ => rfl
  · apply decode_marshal
    rw [cacheControl_eq named]
    split
    · exact hinted_loads loads
    · exact loads

/-- The same call for another provider. -/
def PrepInput.underProvider (input : PrepInput) (provider : String) : PrepInput :=
  { input with provider := provider }

/-- For which bodies a provider in the place of another one makes a difference. -/
theorem prepare_provider_iff {provider : String} (named : input.origModel ≠ "")
    (kind : input.kind = .openrouter) (decodes : codec.decode input.body = some raw) :
    prepare text codec (input.underProvider provider) = prepare text codec input ↔
      hasCacheHints (prepared input.sendAs raw) = true ∨ input.mode ≠ .auto ∨
        (input.underProvider provider).anthropic text = input.anthropic text := by
  have other : (input.underProvider provider).origModel ≠ "" := named
  have otherKind : (input.underProvider provider).kind = .openrouter := kind
  have otherDecodes : codec.decode (input.underProvider provider).body = some raw := decodes
  have otherMode : (input.underProvider provider).mode = input.mode := rfl
  have otherName : (input.underProvider provider).sendAs = input.sendAs := rfl
  constructor
  · intro same
    by_contra differs
    simp only [not_or, Bool.not_eq_true, not_not] at differs
    rcases differs with ⟨unhinted, auto, differs⟩
    rcases decode_prepare other otherKind otherDecodes with ⟨next, reads, alike⟩
    rcases decode_prepare named kind decodes with ⟨others, readsToo, alikeToo⟩
    rw [same, readsToo, Option.some.injEq] at reads
    subst reads
    have decoded := fun path => (alike path).symm.trans (alikeToo path)
    rw [cacheControl_eq other, cacheControl_eq named, otherMode, otherName] at decoded
    simp only [unhinted, auto, true_and, reduceCtorEq, false_or] at decoded
    have changes := hinted_not_alike unhinted
    cases one : (input.underProvider provider).anthropic text with
    | true =>
        have two : input.anthropic text = false := by
          rw [one] at differs
          simpa using Ne.symm differs
        simp only [one, two, Bool.false_eq_true, if_true, if_false, Option.getD_some,
          Option.getD_none] at decoded
        exact changes decoded
    | false =>
        have two : input.anthropic text = true := by
          rw [one] at differs
          simpa using Ne.symm differs
        simp only [one, two, Bool.false_eq_true, if_true, if_false, Option.getD_some,
          Option.getD_none] at decoded
        exact changes fun path => (decoded path).symm
  · intro same
    have sameControl : cacheControl text (input.underProvider provider)
        (prepared input.sendAs raw) = cacheControl text input (prepared input.sendAs raw) := by
      rw [cacheControl_eq other, cacheControl_eq named, otherMode]
      rcases same with hinted | fixed | same
      · simp [hinted]
      · simp [fixed]
      · rw [same]
    rw [prepare_openrouter otherKind otherDecodes, prepare_openrouter kind decodes, otherName,
      sameControl]
    rfl

/-- Only OpenRouter bodies have hints. -/
theorem prepare_other (kind : input.kind ≠ .openrouter) (provider : String) :
    prepare text codec (input.underProvider provider) = prepare text codec input := by
  simp [prepare, kind, PrepInput.underProvider]

theorem prepare_undecoded (undecoded : codec.decode input.body = none) (provider : String) :
    prepare text codec (input.underProvider provider) = prepare text codec input := by
  simp [prepare, undecoded, PrepInput.underProvider, rewriteModel]

end Hinting

end MikroLLM.PromptCache
