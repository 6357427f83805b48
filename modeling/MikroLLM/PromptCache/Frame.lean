import MikroLLM.Go.Frame
import MikroLLM.PromptCache.Hints

/-!
# What `Prepare` keeps

`Prepare` sets the model of a body, and for OpenRouter the member that asks for
the usage of a stream and the cache hint.
-/

namespace MikroLLM.PromptCache

open Domain Go

/-- The places that `rewriteModel` sets. -/
def setsModel : Path → Bool
  | .key name :: _ => name = "model"
  | _ => false

/-- The place that `ensureIncludeUsage` sets. -/
def setsUsage : Path → Bool
  | .key name :: .key option :: _ => name = "stream_options" && option = "include_usage"
  | .key name :: _ => name = "stream_options"
  | _ => false

def setsHint : Path → Bool
  | .key name :: _ => name = "cache_control"
  | _ => false

/-- The places that `Prepare` sets. -/
def sets (kind : BackendKind) (path : Path) : Bool :=
  setsModel path || decide (kind = .openrouter) && (setsUsage path || setsHint path)

section Maps

variable {text : TextLibrary} {input : PrepInput} {raw written : Fields} {sendAs : String}

theorem frames_sendsAs (changed : sendsAs raw sendAs = some written) :
    Frames setsModel raw written := by
  simp only [sendsAs, Option.ite_none_left_eq_some, Option.some.injEq] at changed
  rcases changed with ⟨_, _, rfl⟩
  exact frames_setField _ fun _ => rfl

theorem frames_ensureIncludeUsage (changed : ensureIncludeUsage raw = some written) :
    Frames setsUsage raw written := by
  have inner (options next : Fields) (there : innerOf raw "stream_options" = options)
      (set : Frames (fun rest => setsUsage (.key "stream_options" :: rest)) options next) :
      Frames setsUsage raw (setField raw "stream_options" (.object next)) := by
    rw [← there] at set
    exact frames_inner set (Or.inr ⟨rfl, fun _ _ => rfl⟩)
  simp only [ensureIncludeUsage, Option.ite_none_right_eq_some] at changed
  rcases changed with ⟨_, changed⟩
  split at changed
  · rename_i options found
    simp only [Option.ite_none_left_eq_some, Option.some.injEq] at changed
    rcases changed with ⟨_, rfl⟩
    apply inner options
    · simp [innerOf, field, found]
    · exact frames_setField _ fun _ => rfl
  · cases changed
  · rename_i missing
    rw [Option.some.injEq] at changed
    subst changed
    apply inner []
    · simp [innerOf, field, missing]
    · have made : setField [] "include_usage" (.bool true) = [("include_usage", .bool true)] := rfl
      rw [← made]
      exact frames_setField _ fun _ => rfl

theorem frames_cacheControl (changed : cacheControl text input raw = some written) :
    Frames setsHint raw written := by
  simp only [cacheControl, Option.ite_none_right_eq_some, Option.some.injEq] at changed
  rcases changed with ⟨_, rfl⟩
  exact frames_setField _ fun _ => rfl

theorem cacheControl_loads (self : loadFields raw = some raw)
    (changed : cacheControl text input raw = some written) : loadFields written = some written := by
  simp only [cacheControl, Option.ite_none_right_eq_some, Option.some.injEq] at changed
  rcases changed with ⟨_, rfl⟩
  exact loadFields_setField self rfl

/-- The map that comes out, whether or not it is another one. -/
theorem frames_getD {places : Path → Bool} {result : Option Fields}
    (frames : ∀ written, result = some written → Frames places raw written) :
    Frames places raw (result.getD raw) := by
  cases result with
  | none => exact Frames.refl places raw
  | some written => exact frames written rfl

theorem frames_prepared (openrouter : input.kind = .openrouter) (raw : Fields) :
    Frames (sets input.kind) raw ((cacheControl text input (prepared input.sendAs raw)).getD
      (prepared input.sendAs raw)) := by
  have named : Frames (sets input.kind) raw ((sendsAs raw input.sendAs).getD raw) := by
    apply frames_getD
    intro written changed
    apply (frames_sendsAs changed).mono
    intro path inside
    simp [sets, inside]
  have counted : Frames (sets input.kind) ((sendsAs raw input.sendAs).getD raw)
      (prepared input.sendAs raw) := by
    apply frames_getD
    intro written changed
    apply (frames_ensureIncludeUsage changed).mono
    intro path inside
    simp [sets, openrouter, inside]
  have hinted : Frames (sets input.kind) (prepared input.sendAs raw)
      ((cacheControl text input (prepared input.sendAs raw)).getD (prepared input.sendAs raw)) := by
    apply frames_getD
    intro written changed
    apply (frames_cacheControl changed).mono
    intro path inside
    simp [sets, openrouter, inside]
  exact (named.trans counted).trans hinted

end Maps

section Bodies

variable {text : TextLibrary} {codec : Codec} {input : PrepInput} {body : List UInt8}
  {document raw : Fields} {sendAs : String}

/-- `Prepare` has nothing to write into a body. -/
def Leaves (text : TextLibrary) (input : PrepInput) (raw : Fields) : Prop :=
  sendsAs raw input.sendAs = none ∧ (input.kind = .openrouter →
    ensureIncludeUsage raw = none ∧ cacheControl text input raw = none)

/-- For which documents `Prepare` keeps what it does not set. -/
def KeepsRest (text : TextLibrary) (input : PrepInput) (document : Fields) : Prop :=
  ∀ raw, loadFields document = some raw → Leaves text input raw ∨
    Exact (staying (sets input.kind)) (.object document)

theorem kept_rewriteModel_iff (parsed : codec.parse body = .json [.object document]) :
    Kept codec (staying setsModel) document body (rewriteModel codec body sendAs) ↔
      ∀ raw, loadFields document = some raw → sendsAs raw sendAs = none ∨
        Exact (staying setsModel) (.object document) := by
  have decodes := decode_object parsed
  cases loads : loadFields document with
  | none => simp [rewriteModel, decodes, loads, Kept]
  | some raw =>
      have self := loadFields_loadFields loads
      rw [loads] at decodes
      simp only [Option.some.injEq, forall_eq']
      cases changed : sendsAs raw sendAs with
      | none => simp [rewriteModel, decodes, changed, Kept]
      | some written =>
          have same : rewriteModel codec body sendAs = codec.marshal written := by
            simp [rewriteModel, decodes, changed]
          rw [same, kept_marshal_iff parsed loads (sendsAs_loads self changed)
            (carries_staying.mpr (frames_sendsAs changed))]
          simp

theorem kept_prepare_iff (parsed : codec.parse input.body = .json [.object document]) :
    Kept codec (staying (sets input.kind)) document input.body (prepare text codec input) ↔
      KeepsRest text input document := by
  by_cases openrouter : input.kind = .openrouter
  · have decodes := decode_object parsed
    cases loads : loadFields document with
    | none => simp [prepare, openrouter, decodes, loads, Kept, KeepsRest]
    | some raw =>
        have self := loadFields_loadFields loads
        rw [loads] at decodes
        simp only [KeepsRest, loads, Option.some.injEq, forall_eq']
        rw [prepare_openrouter openrouter decodes]
        split
        · rename_i unchanged
          simp only [Option.isNone_iff_eq_none] at unchanged
          rcases unchanged with ⟨unnamed, uncounted, unhinted⟩
          rw [unnamed, Option.getD_none] at uncounted
          have leaves : Leaves text input raw := by
            refine ⟨unnamed, fun _ => ⟨uncounted, ?_⟩⟩
            simpa [prepared, unnamed, uncounted] using unhinted
          simp [Kept, leaves]
        · rename_i changes
          have touches : ¬Leaves text input raw := by
            rintro ⟨unnamed, rest⟩
            rcases rest openrouter with ⟨uncounted, unhinted⟩
            apply changes
            simp [unnamed, uncounted, unhinted, prepared]
          have loads' := prepared_loads self input.sendAs
          rw [kept_marshal_iff parsed loads ?_ (carries_staying.mpr (frames_prepared openrouter raw))]
          · simp [touches]
          · cases changed : cacheControl text input (prepared input.sendAs raw) with
            | none => exact loads'
            | some written => exact cacheControl_loads loads' changed
  · have same : prepare text codec input = rewriteModel codec input.body input.sendAs := by
      simp [prepare, openrouter]
    have places : sets input.kind = setsModel := by
      funext path
      simp [sets, openrouter]
    rw [same, places, kept_rewriteModel_iff parsed]
    simp [KeepsRest, Leaves, openrouter, places]

theorem prepare_unchanged (undecoded : codec.decode input.body = none) :
    prepare text codec input = input.body := by
  simp [prepare, rewriteModel, undecoded]

end Bodies

end MikroLLM.PromptCache
