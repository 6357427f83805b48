import MikroLLM.Go.Codec
import MikroLLM.Guard.Frame
import MikroLLM.Params.Keeping
import MikroLLM.PromptCache.Frame

/-!
# The passes over the body of a request

Between the client and the upstream a body goes through the policies, the profile
of its alias and the prompt cache, or has its model rewritten. Each pass decodes
the body and encodes it again. `Inject` keeps numbers as they are written, the
others turn them into `float64`.
-/

namespace MikroLLM.Proxy

open Domain Go Guard Params

/-- `rewriteModel` of the proxy; none where it writes into a nil map. -/
def rewriteModel (codec : Codec) (body : List UInt8) (sendAs : String) : Option (List UInt8) :=
  if sendAs = "" then some body
  else
    match codec.parse body with
    -- null leaves the map nil without an error
    | .json [.null] => none
    | _ => some (PromptCache.rewriteModel codec body sendAs)

/-- A pass with what it is called with. -/
inductive Pass
  | guard (policies : List Policy)
  | inject (profile : Profile) (sound : profile.Sound) (kind : BackendKind) (route : Route)
  | prepare (input : PromptCache.PrepInput)
  | rewriteModel (sendAs : String)

section Passes

variable (text : TextLibrary) (filters : Filters) (codec : NumberCodec)

/-- The body that comes out; none where the pass panics. -/
def Pass.run (body : List UInt8) : Pass → Option (List UInt8)
  | .guard policies => some (Guard.apply text filters codec.toCodec body policies .pre).body
  | .inject profile _ kind route => Params.inject codec profile kind route body
  | .prepare input => some (PromptCache.prepare text codec.toCodec { input with body := body })
  | .rewriteModel sendAs => Proxy.rewriteModel codec.toCodec body sendAs

/-- Where a pass leaves the places of an object, none where it sets them. -/
def Pass.place (document : Fields) : Pass → Path → Option Path
  | .guard policies => Guard.place text (dedup policies) (.object document)
  | .inject profile _ kind route => staying (Params.sets profile kind route (keptFields document))
  | .prepare input => staying (PromptCache.sets input.kind)
  | .rewriteModel _ => staying PromptCache.setsModel

/-- A body that is no single object is given back, and of an object everything that the pass does
not set is kept. -/
def Pass.IsFrame (body : List UInt8) (pass : Pass) : Prop :=
  match codec.parse body with
  | .json [.object document] => ∃ out, pass.run text filters codec body = some out ∧
      Kept codec.toCodec (pass.place text document) document body out
  | _ => pass.run text filters codec body = some body

/-- The pass leaves an object alone, or decoding changes no number that is to be kept. -/
def Pass.KeepsRest (body : List UInt8) (document : Fields) : Pass → Prop
  | .guard policies => Guard.KeepsRest text filters policies document
  | .inject _ _ _ _ => True
  | .prepare input => PromptCache.KeepsRest text { input with body := body } document
  | .rewriteModel sendAs => ∀ raw, loadFields document = some raw →
      PromptCache.sendsAs raw sendAs = none ∨
        Exact (staying PromptCache.setsModel) (.object document)

/-- The pass does not write for a body that is no single object. -/
def Pass.LeavesOther (body : List UInt8) : Pass → Prop
  | .inject profile _ kind route => Params.LeavesOther codec profile kind route body
  | .rewriteModel sendAs => sendAs = "" ∨ codec.parse body ≠ .json [.null]
  | .guard _ | .prepare _ => True

/-- When a pass is a frame for a body. -/
def Pass.Meets (body : List UInt8) (pass : Pass) : Prop :=
  match codec.parse body with
  | .json [.object document] => pass.KeepsRest text filters body document
  | _ => pass.LeavesOther codec body

end Passes

section Framing

variable {text : TextLibrary} {filters : Filters} {codec : NumberCodec} {body : List UInt8}
  {document : Fields}

theorem decode_other (other : ∀ document, codec.parse body ≠ .json [.object document]) :
    codec.decode body = none :=
  decode_eq other

theorem isFrame_object_iff (parsed : codec.parse body = .json [.object document]) (pass : Pass) :
    pass.IsFrame text filters codec body ↔ pass.Meets text filters codec body := by
  simp only [Pass.IsFrame, Pass.Meets, Pass.KeepsRest, parsed]
  cases pass with
  | guard policies =>
      simp only [Pass.run, Pass.place, Option.some.injEq, exists_eq_left']
      exact kept_apply_iff parsed
  | inject profile sound kind route =>
      simp only [Pass.run, Pass.place, iff_true]
      exact inject_kept sound parsed
  | prepare input =>
      simp only [Pass.run, Pass.place, Option.some.injEq, exists_eq_left']
      exact @PromptCache.kept_prepare_iff text codec.toCodec { input with body := body } document parsed
  | rewriteModel sendAs =>
      have run : Proxy.rewriteModel codec.toCodec body sendAs =
          some (PromptCache.rewriteModel codec.toCodec body sendAs) := by
        by_cases same : sendAs = ""
        · simp [Proxy.rewriteModel, same, PromptCache.rewriteModel, PromptCache.sendsAs]
        · simp [Proxy.rewriteModel, same, parsed]
      simp only [Pass.run, Pass.place, run, Option.some.injEq, exists_eq_left']
      exact PromptCache.kept_rewriteModel_iff parsed

theorem isFrame_other_iff (other : ∀ document, codec.parse body ≠ .json [.object document])
    (pass : Pass) : pass.IsFrame text filters codec body ↔ pass.Meets text filters codec body := by
  have undecoded := decode_other other
  have isFrame : pass.IsFrame text filters codec body ↔
      pass.run text filters codec body = some body := by
    rw [Pass.IsFrame]
    split
    · rename_i document parsed
      exact absurd parsed (other document)
    · exact Iff.rfl
  have meets : pass.Meets text filters codec body ↔ pass.LeavesOther codec body := by
    rw [Pass.Meets]
    split
    · rename_i document parsed
      exact absurd parsed (other document)
    · exact Iff.rfl
  rw [isFrame, meets]
  cases pass with
  | guard policies => simp [Pass.run, Pass.LeavesOther, apply_undecoded undecoded]
  | inject profile sound kind route => exact inject_other_iff sound other
  | prepare input =>
      have same : PromptCache.prepare text codec.toCodec { input with body := body } = body :=
        PromptCache.prepare_unchanged undecoded
      simp [Pass.run, Pass.LeavesOther, same]
  | rewriteModel sendAs =>
      have same : PromptCache.rewriteModel codec.toCodec body sendAs = body := by
        simp [PromptCache.rewriteModel, undecoded]
      simp only [Pass.run, Pass.LeavesOther, Proxy.rewriteModel]
      by_cases unnamed : sendAs = ""
      · simp [unnamed]
      · rw [if_neg unnamed]
        split
        · rename_i null
          simp [unnamed, null]
        · rename_i notNull
          simp only [same, true_iff]
          exact Or.inr notNull

/-- Each pass is a frame exactly under its condition, for every body. -/
theorem isFrame_iff (text : TextLibrary) (filters : Filters) (codec : NumberCodec)
    (body : List UInt8) (pass : Pass) :
    pass.IsFrame text filters codec body ↔ pass.Meets text filters codec body := by
  by_cases single : ∃ document, codec.parse body = .json [.object document]
  · rcases single with ⟨document, parsed⟩
    exact isFrame_object_iff parsed pass
  · exact isFrame_other_iff (not_exists.mp single) pass

/-- A request with a seed that no `float64` holds. -/
def seededFields : Fields :=
  [("model", .string "chat"), ("seed", .number ⟨9007199254740993, 0⟩)]

def seededBody : List UInt8 :=
  bytesOf "\x7b\"model\":\"chat\",\"seed\":9007199254740993\x7d"

def seededDocuments : Documents where
  list := [(seededBody, encode seededFields)]
  distinct := by decide
  texts := by decide

theorem parse_seededBody :
    (knownNumberCodec seededDocuments).parse seededBody = .json [.object seededFields] :=
  @Documents.read_of_mem seededDocuments _ _ List.mem_cons_self

theorem not_isFrame : ¬∀ (text : TextLibrary) (filters : Filters) (codec : NumberCodec)
    (body : List UInt8) (pass : Pass), pass.IsFrame text filters codec body := by
  intro frames
  have frame := frames asciiText (fun _ => none) (knownNumberCodec seededDocuments) seededBody
    (.rewriteModel "qwen3")
  rw [isFrame_object_iff parse_seededBody, Pass.Meets, parse_seededBody] at frame
  have loads : loadFields seededFields =
      some [("model", .string "chat"), ("seed", .number ⟨9007199254740992, 0⟩)] := by
    decide
  rcases frame _ loads with named | exact
  · cases named
  · have same : (9007199254740992 : ℚ) = 9007199254740993 := by
      simpa [Decimal.value] using exact [.key "seed"] [.key "seed"] ⟨9007199254740993, 0⟩ rfl rfl
        ⟨9007199254740992, 0⟩ (by decide)
    norm_num at same

end Framing

section Course

variable {text : TextLibrary} {filters : Filters} {codec : NumberCodec} {body : List UInt8}
  {document : Fields} {path : Path}

/-- A body through passes one after another; none where one of them panics. -/
def runAll (text : TextLibrary) (filters : Filters) (codec : NumberCodec) :
    List UInt8 → List Pass → Option (List UInt8)
  | body, [] => some body
  | body, pass :: rest => (pass.run text filters codec body).bind (runAll text filters codec · rest)

/-- Every pass meets its condition on the body that it gets and leaves a place where it is. -/
def StaysThrough (text : TextLibrary) (filters : Filters) (codec : NumberCodec) (path : Path) :
    List UInt8 → List Pass → Prop
  | _, [] => True
  | body, pass :: rest => pass.Meets text filters codec body ∧
      (∀ document, codec.parse body = .json [.object document] →
        pass.place text document path = some path) ∧
      ∀ out, pass.run text filters codec body = some out →
        StaysThrough text filters codec path out rest

/-- A place that all passes leave where it is holds what the client put there. -/
theorem runAll_keeps {passes : List Pass} (parsed : codec.parse body = .json [.object document])
    (stays : StaysThrough text filters codec path body passes) :
    ∃ out last, runAll text filters codec body passes = some out ∧
      codec.parse out = .json [.object last] ∧
      (Json.object last).faceAt path = (Json.object document).faceAt path := by
  induction passes generalizing body document with
  | nil => exact ⟨body, document, rfl, parsed, rfl⟩
  | cons pass rest ih =>
      rcases stays with ⟨meets, place, others⟩
      have frame := (isFrame_object_iff parsed pass).mpr meets
      rw [Pass.IsFrame, parsed] at frame
      rcases frame with ⟨out, run, kept⟩
      have next : ∃ written, codec.parse out = .json [.object written] ∧
          (Json.object written).faceAt path = (Json.object document).faceAt path := by
        rcases kept with rfl | ⟨written, there, carries⟩
        · exact ⟨document, parsed, rfl⟩
        · exact ⟨written, there, carries path path (place document parsed)⟩
      rcases next with ⟨written, there, same⟩
      rcases ih there (others out run) with ⟨final, last, runs, lastParsed, lastSame⟩
      refine ⟨final, last, ?_, lastParsed, lastSame.trans same⟩
      rw [runAll, run]
      exact runs

/-- A body that is no single object goes through unchanged. -/
theorem runAll_other {passes : List Pass}
    (other : ∀ document, codec.parse body ≠ .json [.object document])
    (meets : ∀ pass ∈ passes, pass.Meets text filters codec body) :
    runAll text filters codec body passes = some body := by
  induction passes with
  | nil => rfl
  | cons pass rest ih =>
      rw [List.forall_mem_cons] at meets
      have frame := (isFrame_other_iff other pass).mpr meets.1
      rw [Pass.IsFrame] at frame
      split at frame
      · rename_i document parsed
        exact absurd parsed (other document)
      · rw [runAll, frame]
        exact ih meets.2

end Course

end MikroLLM.Proxy
