import MikroLLM.Go.Codec
import MikroLLM.PromptCache.Preparing

/-!
# What the client says about the cache

`Prepare` adds a hint where one is wanted and leaves the hints and the usage that
the client asks for, unless they are below a model that it replaces or have a
number that does not survive the decoding.
-/

namespace MikroLLM.PromptCache

open Domain Go

section Clients

variable {text : TextLibrary} {codec : Codec} {input : PrepInput} {document raw written : Fields}
  {place : Path}

/-- The place of a hint. -/
def IsHint (place : Path) : Prop :=
  (∃ before, ∃ key ∈ hintKeys, place = before ++ [.key key]) ∨
    place = [.key "prompt_cache_options"]

/-- The place of a hint, or of `include_usage`, which are the client's where they are there. -/
def IsClients (place : Path) : Prop :=
  IsHint place ∨ place = [.key "stream_options", .key "include_usage"]

theorem clientHint_iff : ClientHint raw ↔
    ∃ place, IsHint place ∧ (Json.object raw).valueAt place ≠ none := by
  constructor
  · rintro (⟨before, key, isKey, there⟩ | there)
    · exact ⟨_, Or.inl ⟨before, key, isKey, rfl⟩, there⟩
    · refine ⟨_, Or.inr rfl, ?_⟩
      simpa [valueAt_cons, Json.child] using there
  · rintro ⟨_, ⟨before, key, isKey, rfl⟩ | rfl, there⟩
    · exact Or.inl ⟨before, key, isKey, there⟩
    · right
      simpa [valueAt_cons, Json.child] using there

/-- A hint is in no place that the other edits set. -/
theorem IsHint.apart (hint : IsHint place) : ∃ step rest, place = step :: rest ∧
    place ≠ [.key "model"] ∧ place ≠ [.key "stream_options"] ∧
    place ≠ [.key "stream_options", .key "include_usage"] := by
  rcases hint with ⟨before, key, isKey, rfl⟩ | rfl
  · have differs : key ≠ "model" ∧ key ≠ "stream_options" ∧ key ≠ "include_usage" := by
      simp only [hintKeys, List.mem_cons, List.not_mem_nil, or_false] at isKey
      rcases isKey with rfl | rfl <;> decide
    rcases differs with ⟨model, options, usage⟩
    rcases before with _ | ⟨step, _ | ⟨second, rest⟩⟩
    · exact ⟨.key key, [], rfl, by simp [model], by simp [options], by simp⟩
    · exact ⟨step, [.key key], rfl, by simp, by simp, by simp [usage]⟩
    · exact ⟨step, second :: (rest ++ [.key key]), rfl, by simp, by simp, by simp⟩
  · exact ⟨.key "prompt_cache_options", [], rfl, by decide, by decide, by decide⟩

/-- The client's places are not those of a model that is written. -/
def Clear (input : PrepInput) (raw : Fields) : Prop :=
  ∀ place, IsClients place → (Json.object raw).valueAt place ≠ none → Renames input raw →
    place.head? ≠ some (.key "model")

/-- The edits before the hint neither add a hint nor take one away. -/
theorem clientHint_prepared (clear : Clear input raw) :
    ClientHint (prepared input.sendAs raw) ↔ ClientHint raw := by
  rw [clientHint_iff, clientHint_iff]
  apply exists_congr
  intro place
  rw [and_congr_right_iff]
  intro hint
  rcases hint.apart with ⟨step, rest, rfl, notModel, notOptions, notUsage⟩
  rw [← not_iff_not, not_not, not_not, ← faceAt_eq_none_iff, ← faceAt_eq_none_iff]
  by_cases renamed : Renames input raw ∧ step = .key "model"
  · rcases renamed with ⟨renames, rfl⟩
    rcases rest with _ | ⟨second, rest⟩
    · exact absurd rfl notModel
    · rw [faceAt_renamed renames]
      refine iff_of_true rfl ?_
      by_contra there
      exact clear _ (Or.inl hint) (faceAt_eq_none_iff.not.mp there) renames rfl
  · rw [prepared, faceAt_ensureIncludeUsage notOptions notUsage]
    rw [not_and_or] at renamed
    rcases renamed with stays | other
    · rw [sendsAs_eq_none_iff.mpr stays, Option.getD_none]
    · rw [faceAt_sendsAs other]

/-- What the client has at a place and below it is what it was. -/
def Spares (before after : Fields) (place : Path) : Prop :=
  ∀ rest, (Json.object after).faceAt (place ++ rest) = (Json.object before).faceAt (place ++ rest)

theorem Spares.there (spares : Spares raw written place)
    (there : (Json.object raw).valueAt place ≠ none) :
    (Json.object written).valueAt place ≠ none := by
  have same := spares []
  rw [List.append_nil] at same
  rw [Ne, ← faceAt_eq_none_iff] at there ⊢
  rw [same]
  exact there

theorem IsClients.ne_nil (clients : IsClients place) : place ≠ [] := by
  rcases clients with hint | rfl
  · rcases hint.apart with ⟨step, rest, rfl, _⟩
    simp
  · simp

theorem IsClients.ne_options (clients : IsClients place) : place ≠ [.key "stream_options"] := by
  rcases clients with hint | rfl
  · rcases hint.apart with ⟨_, _, _, _, notOptions, _⟩
    exact notOptions
  · decide

theorem spares_sendsAs (clients : IsClients place)
    (clear : Renames input raw → place.head? ≠ some (.key "model")) :
    Spares raw ((sendsAs raw input.sendAs).getD raw) place := by
  intro rest
  by_cases renames : Renames input raw
  · have differs := clear renames
    rcases place with _ | ⟨step, more⟩
    · exact absurd rfl clients.ne_nil
    · rw [List.cons_append]
      apply faceAt_sendsAs
      rintro rfl
      exact differs rfl
  · rw [sendsAs_eq_none_iff.mpr renames, Option.getD_none]

theorem spares_prepared (clients : IsClients place)
    (there : (Json.object raw).valueAt place ≠ none)
    (clear : Renames input raw → place.head? ≠ some (.key "model")) :
    Spares raw (prepared input.sendAs raw) place := by
  have named := spares_sendsAs clients clear
  have present := named.there there
  intro rest
  rw [← named rest, prepared]
  cases changed : ensureIncludeUsage ((sendsAs raw input.sendAs).getD raw) with
  | none => rfl
  | some written =>
      rw [← changed]
      apply faceAt_ensureIncludeUsage
      · intro options
        rcases List.append_eq_singleton_iff.mp options with ⟨nothing, _⟩ | ⟨isOptions, _⟩
        · exact clients.ne_nil nothing
        · exact clients.ne_options isOptions
      · intro usage
        -- a member that is there is not written
        rcases ensureIncludeUsage_writes changed with ⟨options, _, missing, same⟩
        have absent : (Json.object ((sendsAs raw input.sendAs).getD raw)).faceAt
            [.key "stream_options", .key "include_usage"] = none := by
          rw [same, faceAt_key, missing, Option.bind_none]
        rcases place with _ | ⟨first, _ | ⟨second, more⟩⟩
        · exact clients.ne_nil rfl
        · simp only [List.cons_append, List.cons.injEq] at usage
          rw [usage.1] at clients
          exact clients.ne_options rfl
        · simp only [List.cons_append, List.cons.injEq, List.append_eq_nil_iff] at usage
          rcases usage with ⟨rfl, rfl, rfl, _⟩
          exact faceAt_eq_none_iff.not.mpr present absent

theorem spares_result (clients : IsClients place)
    (there : (Json.object raw).valueAt place ≠ none)
    (clear : Renames input raw → place.head? ≠ some (.key "model")) :
    Spares raw (result text input raw) place := by
  rw [result]
  split
  · have before : Spares raw (prepared input.sendAs raw) place :=
      spares_prepared clients there clear
    rcases @cacheControl_cases text input (prepared input.sendAs raw) with none' | some'
    · rw [none']
      exact before
    · rw [some', Option.getD_some]
      have missing : fieldOf (prepared input.sendAs raw) "cache_control" = none := by
        rw [cacheControl_eq_hinted, Option.ite_none_right_eq_some] at some'
        have unhinted := some'.1.1
        simp only [hasCacheHints, Bool.or_eq_false_iff, Option.isSome_eq_false_iff,
          Option.isNone_iff_eq_none] at unhinted
        exact unhinted.1.1
      have present := before.there there
      intro rest
      rw [← before rest]
      rcases place with _ | ⟨key | position, more⟩
      · exact absurd rfl clients.ne_nil
      · apply faceAt_setField_ne
        rintro rfl
        apply present
        rw [valueAt_cons, Json.child, missing]
        rfl
      · rfl
  · exact spares_sendsAs clients clear

theorem fieldOf_result_model (renames : Renames input raw) :
    fieldOf (result text input raw) "model" = some (.string input.sendAs) := by
  have named : fieldOf ((sendsAs raw input.sendAs).getD raw) "model" =
      some (.string input.sendAs) := by
    rw [sendsAs, if_neg renames.1, if_neg renames.2, Option.getD_some, fieldOf_setField_self]
  have kept : fieldOf (prepared input.sendAs raw) "model" = some (.string input.sendAs) := by
    rw [prepared, fieldOf_ensureIncludeUsage (by decide), named]
  rw [result]
  split
  · rcases @cacheControl_cases text input (prepared input.sendAs raw) with none' | some'
    · rw [none', Option.getD_none, kept]
    · rw [some', Option.getD_some, fieldOf_hinted (by decide), kept]
  · exact named

/-- A hint below a model that is written is lost. -/
theorem not_spares (clients : IsClients place) (renames : Renames input raw)
    (model : place.head? = some (.key "model")) :
    (Json.object (result text input raw)).faceAt place = none := by
  rcases place with _ | ⟨step, rest⟩
  · cases model
  · rw [List.head?_cons, Option.some.injEq] at model
    subst model
    rcases rest with _ | ⟨second, rest⟩
    · exfalso
      rcases clients with hint | usage
      · rcases hint.apart with ⟨_, _, _, notModel, _⟩
        exact notModel rfl
      · simp at usage
    · rw [faceAt_key, fieldOf_result_model renames, Option.bind_some, faceAt_string]

/-- The member of the hint, after the pass. -/
theorem fieldOf_result_control (self : loadFields raw = some raw) (clear : Clear input raw) :
    (Wanted text input raw ∧ fieldOf (result text input raw) "cache_control" =
        some (.object [("type", .string "ephemeral")])) ∨
      ¬Wanted text input raw ∧ fieldOf (result text input raw) "cache_control" =
        fieldOf raw "cache_control" := by
  rw [result, Wanted]
  split
  · rename_i openrouter
    have hints : hasCacheHints (prepared input.sendAs raw) = false ↔ ¬ClientHint raw := by
      rw [← Bool.not_eq_true, hasCacheHints_iff (prepared_loads self input.sendAs),
        clientHint_prepared clear]
    have none' := @cacheControl_eq_none_iff text input raw
    rw [hints] at none'
    rcases @cacheControl_cases text input (prepared input.sendAs raw) with unhinted | added
    · right
      rw [unhinted, Option.getD_none, fieldOf_prepared (by decide) (by decide)]
      exact ⟨fun wanted => none'.mp unhinted wanted.2, rfl⟩
    · left
      rw [added, Option.getD_some]
      have wanted : ¬ClientHint raw ∧ ModeWants text input raw := by
        by_contra unwanted
        rw [none'.mpr unwanted] at added
        cases added
      exact ⟨⟨openrouter, wanted⟩, fieldOf_setField_self _ _ _⟩
  · rename_i other
    right
    exact ⟨fun wanted => other wanted.1, fieldOf_sendsAs (by decide)⟩

end Clients

section Passes

/-- A hint is added to a body. -/
def Adds (before after : Fields) : Prop :=
  fieldOf before "cache_control" = none ∧ fieldOf after "cache_control" ≠ none

/-- `Prepare` adds a hint exactly where one is wanted, and leaves what the client has. -/
structure Decides (text : TextLibrary) (input : PrepInput) (before after : Fields) : Prop where
  adds : Adds before after ↔ Wanted text input before
  hint : Adds before after →
    fieldOf after "cache_control" = some (.object [("type", .string "ephemeral")])
  spares : ∀ place, IsClients place → (Json.object before).valueAt place ≠ none →
    Spares before after place

/-- The same call for another body. -/
def PrepInput.withBody (input : PrepInput) (body : List UInt8) : PrepInput :=
  { input with body := body }

/-- What the last pass is to do with an object. -/
structure Prepares (text : TextLibrary) (codec : Codec) (input : PrepInput) (document : Fields) :
    Prop where
  decides : ∃ written, codec.parse (prepare text codec input) = .json [.object written] ∧
    Decides text input document written
  again : prepare text codec (input.withBody (prepare text codec input)) =
    prepare text codec input
  unreported : reports text codec (input.withBody (prepare text codec input)) = false

/-- There is nothing to write into a body. -/
def Idle (text : TextLibrary) (input : PrepInput) (document : Fields) : Prop :=
  ¬Renames input document ∧
    (input.kind = .openrouter → ¬AsksUsage document ∧ ¬Wanted text input document)

/-- For which objects it does that: one that is not decoded, as a number is out of range, is to get
no hint; one that is written again has no client's place below a model that is replaced, and no
number there that a `float64` does not hold. -/
def Careful (text : TextLibrary) (input : PrepInput) (document : Fields) : Prop :=
  if loadFields document = none then ¬Wanted text input document
  else Idle text input document ∨
    ∀ place, IsClients place → (Json.object document).valueAt place ≠ none →
      (Renames input document → place.head? ≠ some (.key "model")) ∧
        ∀ rest literal, (Json.object document).valueAt (place ++ rest) = some (.number literal) →
          literal.exact

variable {text : TextLibrary} {codec : Codec} {input : PrepInput} {document raw written : Fields}
  {place : Path}

theorem wanted_resembling (resembles : Resembles (.object raw) (.object document)) :
    Wanted text input raw ↔ Wanted text input document := by
  rw [Wanted, Wanted, clientHint_resembling resembles, ModeWants, ModeWants,
    originalName_resembling resembles]

theorem idle_resembling (resembles : Resembles (.object raw) (.object document)) :
    Idle text input raw ↔ Idle text input document := by
  rw [Idle, Idle, renames_resembling resembles, asksUsage_resembling resembles,
    wanted_resembling resembles]

theorem leaves_iff_idle (self : loadFields raw = some raw) :
    Leaves text input raw ↔ Idle text input raw := by
  rw [Leaves, Idle, sendsAs_eq_none_iff, ensureIncludeUsage_eq_none_iff, and_congr_right_iff]
  intro stays
  apply imp_congr_right
  intro openrouter
  rw [and_congr_right_iff]
  intro unasked
  have same : prepared input.sendAs raw = raw := by
    simp [prepared, sendsAs_eq_none_iff.mpr stays, ensureIncludeUsage_eq_none_iff.mpr unasked]
  have none' := @cacheControl_eq_none_iff text input raw
  rw [same, ← Bool.not_eq_true, hasCacheHints_iff self] at none'
  rw [none', Wanted, and_iff_right openrouter]

theorem leaves_iff_idle_document (loads : loadFields document = some raw) :
    Leaves text input raw ↔ Idle text input document := by
  rw [leaves_iff_idle (loadFields_loadFields loads),
    idle_resembling (resembles_load (load_object loads))]

theorem prepare_again (text : TextLibrary) (codec : Codec) (input : PrepInput) :
    prepare text codec (input.withBody (prepare text codec input)) = prepare text codec input ∧
      reports text codec (input.withBody (prepare text codec input)) = false := by
  cases decodes : codec.decode input.body with
  | none =>
      have same : prepare text codec input = input.body := prepare_unchanged decodes
      have undecoded : codec.decode (input.withBody (prepare text codec input)).body = none := by
        rw [same]
        exact decodes
      refine ⟨prepare_unchanged undecoded, ?_⟩
      rw [reports, undecoded]
      simp
  | some raw =>
      rcases @decode_prepared text codec input raw decodes with ⟨next, decoded, alike⟩
      have again : codec.decode (input.withBody (prepare text codec input)).body = some next :=
        decoded
      have idle : Idle text input (result text input raw) :=
        (leaves_iff_idle (result_loads (decode_self decodes))).mp (leaves_result raw)
      have leaves : Leaves text (input.withBody (prepare text codec input)) next :=
        (leaves_iff_idle (decode_self decoded)).mpr ((idle_resembling alike.resembles).mpr idle)
      rcases prepare_decoded again with ⟨_, same, silent⟩ | ⟨touches, _⟩
      · exact ⟨same, silent⟩
      · exact absurd leaves touches

theorem decides_self (unwanted : ¬Wanted text input document) :
    Decides text input document document where
  adds := iff_of_false (fun adds => adds.2 adds.1) unwanted
  hint adds := absurd adds.1 adds.2
  spares _ _ _ _ := rfl

/-- The body that is written again. -/
theorem decides_result (loads : loadFields document = some raw)
    (careful : ∀ place, IsClients place → (Json.object document).valueAt place ≠ none →
      (Renames input document → place.head? ≠ some (.key "model")) ∧
        ∀ rest literal, (Json.object document).valueAt (place ++ rest) = some (.number literal) →
          literal.exact) :
    Decides text input document (result text input raw) := by
  have self := loadFields_loadFields loads
  have resembles := resembles_load (load_object loads)
  have present (place : Path) : (Json.object raw).valueAt place ≠ none ↔
      (Json.object document).valueAt place ≠ none := valueAt_resembling resembles
  have clear : Clear input raw := by
    intro place clients there renames
    rw [present] at there
    exact (careful place clients there).1 ((renames_resembling resembles).mp renames)
  have member : fieldOf raw "cache_control" ≠ none ↔ fieldOf document "cache_control" ≠ none :=
    fieldOf_resembling resembles
  constructor
  · rcases fieldOf_result_control self clear with ⟨wanted, added⟩ | ⟨unwanted, same⟩
    · rw [wanted_resembling resembles] at wanted
      refine iff_of_true ⟨?_, ?_⟩ wanted
      · by_contra there
        apply wanted.2.1
        rw [clientHint_iff]
        refine ⟨[.key "cache_control"], Or.inl ⟨[], _, List.mem_cons_self, rfl⟩, ?_⟩
        simpa [valueAt_cons, Json.child] using there
      · rw [added]
        simp
    · rw [wanted_resembling resembles] at unwanted
      refine iff_of_false ?_ unwanted
      rintro ⟨missing, there⟩
      rw [same, member] at there
      exact there missing
  · rintro ⟨missing, there⟩
    rcases fieldOf_result_control self clear with ⟨_, added⟩ | ⟨_, same⟩
    · exact added
    · rw [same, member] at there
      exact absurd missing there
  · intro place clients there rest
    have kept := careful place clients there
    rw [← present] at there
    rw [spares_result clients there (clear place clients there) rest]
    exact (faceAt_load (load_object loads) (place ++ rest)).mpr (kept.2 rest)

/-- What is decided about a map is decided about the document that it is written as. -/
theorem Decides.writtenAs (decides : Decides text input document raw)
    (isWritten : WrittenAs raw written) : Decides text input document written := by
  have adds : Adds document written ↔ Adds document raw :=
    and_congr_right fun _ => fieldOf_resembling isWritten.alike.resembles
  constructor
  · rw [adds]
    exact decides.adds
  · intro added
    exact isWritten.fieldOf_eq (decides.hint (adds.mp added))
  · intro place clients there rest
    exact (isWritten.alike _).trans (decides.spares place clients there rest)

theorem prepares_of_careful (parsed : codec.parse input.body = .json [.object document])
    (careful : Careful text input document) : Prepares text codec input document := by
  have again := prepare_again text codec input
  refine ⟨?_, again.1, again.2⟩
  have decodes := decode_object parsed
  rw [Careful] at careful
  split at careful
  · rename_i loads
    rw [loads] at decodes
    rw [prepare_unchanged decodes]
    exact ⟨document, parsed, decides_self careful⟩
  · rename_i loaded
    rcases Option.ne_none_iff_exists'.mp loaded with ⟨raw, loads⟩
    rw [loads] at decodes
    rcases prepare_decoded decodes with ⟨leaves, same, _⟩ | ⟨touches, writes⟩
    · have idle := (leaves_iff_idle_document loads).mp leaves
      rw [same]
      exact ⟨document, parsed, decides_self fun wanted => (idle.2 wanted.1).2 wanted⟩
    · rw [leaves_iff_idle_document loads] at touches
      rw [writes]
      rcases codec.parse_marshal _ (result_loads (loadFields_loadFields loads)) with
        ⟨written, _, parses, isWritten, _⟩
      have decides : Decides text input document (result text input raw) :=
        decides_result loads (careful.resolve_left touches)
      exact ⟨written, parses, decides.writtenAs isWritten⟩

theorem careful_of_prepares (parsed : codec.parse input.body = .json [.object document])
    (prepares : Prepares text codec input document) : Careful text input document := by
  have decodes := decode_object parsed
  rcases prepares.decides with ⟨written, isResult, decides⟩
  rw [Careful]
  split
  · rename_i loads
    rw [loads] at decodes
    rw [prepare_unchanged decodes, parsed] at isResult
    cases isResult
    intro wanted
    have adds := decides.adds.mpr wanted
    exact adds.2 adds.1
  · rename_i loaded
    rcases Option.ne_none_iff_exists'.mp loaded with ⟨raw, loads⟩
    rw [loads] at decodes
    rcases prepare_decoded decodes with ⟨leaves, _⟩ | ⟨_, writes⟩
    · exact Or.inl ((leaves_iff_idle_document loads).mp leaves)
    · right
      rcases codec.parse_marshal _ (result_loads (loadFields_loadFields loads)) with
        ⟨sent, _, parses, isSent, _⟩
      rw [writes, parses, encode, Body.json.injEq, List.singleton_inj, Json.object.injEq]
        at isResult
      subst isResult
      have resembles := resembles_load (load_object loads)
      intro place clients there
      have spares : Spares document (result text input raw) place := fun rest =>
        (isSent.alike _).symm.trans (decides.spares place clients there rest)
      have clear : Renames input document → place.head? ≠ some (.key "model") := by
        intro renames model
        have lost := @not_spares text input raw place clients ((renames_resembling resembles).mpr renames)
          model
        have kept := spares []
        rw [List.append_nil, lost] at kept
        exact there (faceAt_eq_none_iff.mp kept.symm)
      have clearRaw : Renames input raw → place.head? ≠ some (.key "model") := fun renames =>
        clear ((renames_resembling resembles).mp renames)
      refine ⟨clear, ?_⟩
      intro rest
      rw [← faceAt_load (load_object loads) (place ++ rest), ← spares rest]
      exact (spares_result clients ((valueAt_resembling resembles).mpr there)
        clearRaw rest).symm

/-- The last pass does what it is to do exactly with the objects that it is careful with. -/
theorem prepares_iff (parsed : codec.parse input.body = .json [.object document]) :
    Prepares text codec input document ↔ Careful text input document :=
  ⟨careful_of_prepares parsed, prepares_of_careful parsed⟩

/-- A request with a hint that has a number that no `float64` holds. -/
def hintedFields : Fields :=
  [("cache_control", .object [("ttl", .number ⟨9007199254740993, 0⟩)]), ("model", .string "chat")]

def hintedBody : List UInt8 :=
  bytesOf "\x7b\"cache_control\":\x7b\"ttl\":9007199254740993\x7d,\"model\":\"chat\"\x7d"

def hintedDocuments : Documents where
  list := [(hintedBody, encode hintedFields)]
  distinct := by decide
  texts := by decide

def hintedInput : PrepInput where
  body := hintedBody
  sendAs := "qwen3"
  origModel := "chat"
  kind := .openrouter
  provider := ""
  mode := .auto

theorem parse_hintedBody :
    (knownCodec hintedDocuments).parse hintedInput.body = .json [.object hintedFields] :=
  @Documents.read_of_mem hintedDocuments _ _ List.mem_cons_self

theorem prepares_hinted : Prepares asciiText (knownCodec hintedDocuments) hintedInput hintedFields ↔
    Careful asciiText hintedInput hintedFields :=
  prepares_iff parse_hintedBody

theorem not_prepares : ¬∀ (text : TextLibrary) (codec : Codec) (input : PrepInput)
    (document : Fields), codec.parse input.body = .json [.object document] →
    Prepares text codec input document := by
  intro always
  have careful := careful_of_prepares parse_hintedBody
    (always asciiText (knownCodec hintedDocuments) hintedInput hintedFields parse_hintedBody)
  have loads : loadFields hintedFields ≠ none := by decide
  rw [Careful, if_neg loads] at careful
  rcases careful with idle | clients
  · exact idle.1 ⟨by decide, by decide⟩
  · have exact := (clients [.key "cache_control"] (Or.inl (Or.inl ⟨[], _, List.mem_cons_self, rfl⟩))
      (by decide)).2 [.key "ttl"] ⟨9007199254740993, 0⟩ rfl
    have same : (9007199254740992 : ℚ) = 9007199254740993 := by
      simpa [Decimal.value] using exact ⟨9007199254740992, 0⟩ (by decide)
    exact absurd same (by decide)

end Passes

end MikroLLM.PromptCache
