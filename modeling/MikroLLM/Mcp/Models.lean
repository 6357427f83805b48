import MikroLLM.Go.Codec
import MikroLLM.Mcp.Arguments
import MikroLLM.Params.Profile
import MikroLLM.Store.SavedModels

/-!
# The tool `save_model`

The model is looked up by its id, or else by its alias. What the arguments do
not give is taken from the row, in one way for the id and in another for the
alias.
-/

namespace MikroLLM.Mcp

open Domain Go Params Store

/-- What the tool reads of an entry of the catalog. -/
structure CatalogModel where
  name : String
  backendIds : List BackendId

/-- An error of the tool: a text, what is wrong with the profile, or the error of the store. -/
inductive ModelError
  | text (message : String)
  | params
  | save (error : SaveError)
  deriving DecidableEq

/-- The answer of the tool. -/
structure ModelAnswer where
  id : ModelId
  aliasName : String
  deriving DecidableEq

section Tool

variable (outside : Double → ℤ) (text : TextLibrary) (codec : Codec)

/-- The alias of the call. -/
def aliasArg (args : Fields) : String :=
  let given := strArg outside args ["alias"]
  if given = "" then strArg outside args ["upstream_name", "upstream"] else given

/-- The media of the call. -/
def mediaArg (args : Fields) : List String :=
  if hasArg args "media" then
    match strSlice outside args "media" with
    | some media => parseMedia text (join media ",")
    | none => parseMedia text (strArg outside args ["media"])
  else []

/-- The profile of the call as a text; none when it is not one. -/
def paramsArg (args : Fields) : Option String :=
  let raw :=
    match fieldOf args "params" with
    | none => some ""
    | some .null => some ""
    | some (.string raw) => some raw
    | some (.object fields) => some (codec.text (codec.marshal fields))
    -- the profile has to be an object
    | some _ => none
  if hasArg args "params" then raw.filter fun raw => (parseProfile outside codec raw).isSome
  else some ""

/-- The model of the arguments alone. -/
def givenModel (args : Fields) : Except ModelError Model :=
  if aliasArg outside args = "" then .error (.text "alias required")
  else
    match paramsArg outside codec args with
    | none => .error .params
    | some params => .ok {
        id := 0
        aliasName := aliasArg outside args
        upstreamName := strArg outside args ["upstream_name", "upstream"]
        lbPolicy := strArg outside args ["lb_policy"]
        enabled := if hasArg args "enabled" then boolArg args "enabled" true else true
        backendIds := ((intSlice outside args "backend_ids").getD []).map Int.toNat
        maxContext := (intArg outside args ["max_context"]).getD 0
        fallback := strArg outside args ["fallback"]
        promptCache :=
          if hasArg args "prompt_cache" then strArg outside args ["prompt_cache"] else ""
        params := params
        media := mediaArg outside text args
        hubShare := if hasArg args "hub_share" then boolArg args "hub_share" false else false
        hubNodeID := ""
        hubNodeName := "" }

/-- What the branch for an id takes from the row. -/
def mergeById (args : Fields) (old model : Model) : Model :=
  { model with
    id := old.id
    enabled := if hasArg args "enabled" then model.enabled else old.enabled
    lbPolicy := if model.lbPolicy = "" then old.lbPolicy else model.lbPolicy
    upstreamName := if model.upstreamName = "" then old.upstreamName else model.upstreamName
    maxContext := if hasArg args "max_context" then model.maxContext else old.maxContext
    fallback := if hasArg args "fallback" then model.fallback else old.fallback
    promptCache := if hasArg args "prompt_cache" then model.promptCache else old.promptCache
    hubShare := if hasArg args "hub_share" then model.hubShare else old.hubShare
    media := if hasArg args "media" then model.media else old.media
    backendIds := if hasArg args "backend_ids" then model.backendIds else old.backendIds
    params := if hasArg args "params" then model.params else old.params }

/-- What the branch for an alias takes from the row. -/
def mergeByAlias (args : Fields) (old model : Model) : Model :=
  { model with
    id := old.id
    backendIds :=
      if !hasArg args "backend_ids" && model.backendIds.isEmpty then old.backendIds
      else model.backendIds
    params := if hasArg args "params" then model.params else old.params
    upstreamName := if model.upstreamName = "" then old.upstreamName else model.upstreamName
    maxContext := if hasArg args "max_context" then model.maxContext else old.maxContext
    fallback := if hasArg args "fallback" then model.fallback else old.fallback
    promptCache := if hasArg args "prompt_cache" then model.promptCache else old.promptCache
    hubShare := if hasArg args "hub_share" then model.hubShare else old.hubShare
    lbPolicy := if model.lbPolicy = "" then old.lbPolicy else model.lbPolicy }

/-- `Store.GetModel`. -/
def getModel (registry : Registry) (id : ModelId) : Option Model :=
  registry.models.models.find? (·.id = id)

/-- The model with what it takes from its row. -/
def mergedModel (registry : Registry) (args : Fields) (model : Model) : Model :=
  match idArg outside args with
  | some id => (getModel registry id.toNat).elim model fun old => mergeById args old model
  | none => (registry.models.getModelByAlias model.aliasName).elim model fun old =>
      mergeByAlias args old model

/-- A model without backends takes those of its entry in the catalog. -/
def bindFromCatalog (catalog : List CatalogModel) (model : Model) : Model :=
  if model.backendIds = [] then
    match catalog.find? fun entry =>
      entry.name = model.upstreamName || entry.name = model.aliasName with
    | some entry => { model with
        backendIds := entry.backendIds
        upstreamName := if model.upstreamName = "" then entry.name else model.upstreamName }
    | none => model
  else model

/-- `toolSaveModel`, with the catalog that `health` has of the backends. -/
def toolSaveModel (catalog : List CatalogModel) (registry : Registry) (args : Fields) :
    Registry × Except ModelError ModelAnswer :=
  match givenModel outside text codec args with
  | .error error => (registry, .error error)
  | .ok given =>
      let model := bindFromCatalog catalog (mergedModel outside registry args given)
      if model.backendIds = [] then
        (registry, .error (.text
          "нет бэкенда с этой моделью — вызовите refresh_health или укажите backend_ids"))
      else
        match registry.saveModel text model with
        | (next, .error error) => (next, .error (.save error))
        | (next, .ok id) => (next, .ok ⟨id, model.aliasName⟩)

end Tool

section Frame

variable (outside : Double → ℤ) (text : TextLibrary)

/-- The call finds the row, by its id, or without an id by its alias. -/
inductive FindsModel (registry : Registry) (args : Fields) : Model → Bool → Prop
  | byId {row : Model} {id : ℤ} (given : idArg outside args = some id)
      (found : getModel registry id.toNat = some row) : FindsModel registry args row true
  | byAlias {row : Model} (noId : idArg outside args = none)
      (found : registry.models.getModelByAlias (aliasArg outside args) = some row) :
      FindsModel registry args row false

/-- The fields whose arguments are absent are those of the row. No argument is about the node. -/
structure KeepsModel (args : Fields) (row new : Model) : Prop where
  aliasName : hasArg args "alias" = false → new.aliasName = row.aliasName
  upstreamName : hasArg args "upstream_name" = false → hasArg args "upstream" = false →
    new.upstreamName = row.upstreamName
  lbPolicy : hasArg args "lb_policy" = false → new.lbPolicy = row.lbPolicy
  enabled : hasArg args "enabled" = false → new.enabled = row.enabled
  backendIds : hasArg args "backend_ids" = false → new.backendIds = row.backendIds
  maxContext : hasArg args "max_context" = false → new.maxContext = row.maxContext
  fallback : hasArg args "fallback" = false → new.fallback = row.fallback
  promptCache : hasArg args "prompt_cache" = false → new.promptCache = row.promptCache
  params : hasArg args "params" = false → new.params = row.params
  media : hasArg args "media" = false → new.media = row.media
  hubShare : hasArg args "hub_share" = false → new.hubShare = row.hubShare
  hubNodeID : new.hubNodeID = row.hubNodeID
  hubNodeName : new.hubNodeName = row.hubNodeName

/-- The row is there with its id, and has kept what the call does not give. -/
def SavesFrame (args : Fields) (row : Model) (next : Registry) : Prop :=
  ∃ new ∈ next.models.models, new.id = row.id ∧ KeepsModel args row new

/-- The media of a row that is saved without media. -/
def noMedia : List String :=
  parseMedia text (joinMedia text [])

/-- The model is local and has backends, unless they are given; it does not get its fallback or,
without an alias, another name as its alias; and when it is found by its alias, it is enabled and
without media, unless these are given. -/
structure KeepsRow (args : Fields) (byId : Bool) (row : Model) : Prop where
  isLocal : row.hubNodeID = "" ∧ row.hubNodeName = ""
  backends : hasArg args "backend_ids" = true ∨ row.backendIds ≠ []
  fallback : hasArg args "fallback" = true ∨ row.fallback = "" ∨
    row.fallback ≠ aliasArg outside args
  aliasName : hasArg args "alias" = true ∨ row.aliasName = aliasArg outside args
  enabled : byId = true ∨ hasArg args "enabled" = true ∨ row.enabled = true
  media : byId = true ∨ hasArg args "media" = true ∨ row.media = noMedia text

/-- Both branches give the row the same flag and the same media. -/
def BothWays (args : Fields) (row : Model) : Prop :=
  (hasArg args "enabled" = true ∨ row.enabled = true) ∧
    (hasArg args "media" = true ∨ row.media = noMedia text)

/-- The maps differ at most in the id. -/
def AlikeButId (args others : Fields) : Prop :=
  ∀ key, key ≠ "id" → fieldOf args key = fieldOf others key

end Frame

section Merging

variable {outside : Double → ℤ} {text : TextLibrary} {codec : Codec} {args others : Fields}
  {catalog : List CatalogModel} {registry next : Registry} {answer : ModelAnswer}
  {given row model : Model} {byId : Bool}

theorem strArg_of_absent {key : String} (absent : hasArg args key = false) (rest : List String) :
    strArg outside args (key :: rest) = strArg outside args rest := by
  have missing : fieldOf args key = none := by simpa [hasArg] using absent
  simp [strArg, missing]

/-- A call that is not refused. -/
theorem givenModel_eq_ok (accepted : givenModel outside text codec args = .ok given) :
    given.aliasName = aliasArg outside args ∧
      given.upstreamName = strArg outside args ["upstream_name", "upstream"] ∧
      given.lbPolicy = strArg outside args ["lb_policy"] ∧
      given.enabled = (if hasArg args "enabled" then boolArg args "enabled" true else true) ∧
      given.backendIds = ((intSlice outside args "backend_ids").getD []).map Int.toNat ∧
      given.media = mediaArg outside text args ∧ given.hubNodeID = "" ∧
      given.hubNodeName = "" := by
  simp only [givenModel] at accepted
  split at accepted
  · cases accepted
  · split at accepted
    · cases accepted
    · cases accepted
      exact ⟨rfl, rfl, rfl, rfl, rfl, rfl, rfl, rfl⟩

theorem givenModel_backendIds (accepted : givenModel outside text codec args = .ok given)
    (absent : hasArg args "backend_ids" = false) : given.backendIds = [] := by
  have missing : fieldOf args "backend_ids" = none := by simpa [hasArg] using absent
  rw [(givenModel_eq_ok accepted).2.2.2.2.1]
  simp [intSlice, missing]

/-- The model that the tool has for a row: by an alias, the flag and the media are those of the
call. -/
def modelFor (args : Fields) (byId : Bool) (row given : Model) : Model :=
  if byId then mergeById args row given
  else { mergeById args row given with enabled := given.enabled, media := given.media }

theorem mergeByAlias_eq (accepted : givenModel outside text codec args = .ok given) (row : Model) :
    mergeByAlias args row given = modelFor args false row given := by
  have sameIds : (if !hasArg args "backend_ids" && given.backendIds.isEmpty then row.backendIds
      else given.backendIds) =
      if hasArg args "backend_ids" then given.backendIds else row.backendIds := by
    cases isGiven : hasArg args "backend_ids" with
    | true => simp
    | false => simp [givenModel_backendIds accepted isGiven]
  simp only [mergeByAlias, modelFor, mergeById, sameIds, Bool.false_eq_true, if_false]

theorem mergedModel_eq (accepted : givenModel outside text codec args = .ok given)
    (found : FindsModel outside registry args row byId) :
    mergedModel outside registry args given = modelFor args byId row given := by
  cases found with
  | byId isId isRow => simp [mergedModel, isId, isRow, modelFor]
  | byAlias noId isRow =>
      rw [← (givenModel_eq_ok accepted).1] at isRow
      simp only [mergedModel, noId, isRow, Option.elim]
      exact mergeByAlias_eq accepted row

theorem FindsModel.mem (found : FindsModel outside registry args row byId) :
    row ∈ registry.models.models := by
  cases found with
  | byId _ isRow => exact List.mem_of_find?_eq_some isRow
  | byAlias _ isRow => exact List.mem_of_find?_eq_some isRow

/-- Backends that the model has, and a name of its own, are not looked up. -/
theorem bindFromCatalog_spec (catalog : List CatalogModel) (model : Model) :
    ∃ ids upstream, bindFromCatalog catalog model =
        { model with backendIds := ids, upstreamName := upstream } ∧
      (model.backendIds ≠ [] → ids = model.backendIds) ∧
      (model.upstreamName ≠ "" → upstream = model.upstreamName) := by
  simp only [bindFromCatalog]
  split
  · rename_i unbound
    split
    · refine ⟨_, _, rfl, fun bound => absurd unbound bound, ?_⟩
      intro named
      rw [if_neg named]
    · exact ⟨_, _, rfl, fun _ => rfl, fun _ => rfl⟩
  · exact ⟨_, _, rfl, fun _ => rfl, fun _ => rfl⟩

/-- A call that succeeds saves a model with backends. -/
theorem toolSaveModel_eq_ok
    (done : toolSaveModel outside text codec catalog registry args = (next, .ok answer))
    (found : FindsModel outside registry args row byId) :
    ∃ given, givenModel outside text codec args = .ok given ∧
      (bindFromCatalog catalog (modelFor args byId row given)).backendIds ≠ [] ∧
      registry.saveModel text (bindFromCatalog catalog (modelFor args byId row given)) =
        (next, .ok answer.id) := by
  simp only [toolSaveModel] at done
  split at done
  · exact nomatch congrArg Prod.snd done
  · rename_i given accepted
    rw [mergedModel_eq accepted found] at done
    split at done
    · exact nomatch congrArg Prod.snd done
    · rename_i bound
      split at done
      · exact nomatch congrArg Prod.snd done
      · rename_i saved id isSaved
        cases done
        exact ⟨given, accepted, bound, isSaved⟩

@[simp]
theorem modelFor_id : (modelFor args byId row given).id = row.id := by
  cases byId <;> rfl

/-- The row of the store after a call that succeeds. -/
theorem savesFrame_iff
    (found : FindsModel outside registry args row byId)
    (isSaved : registry.saveModel text (bindFromCatalog catalog (modelFor args byId row given)) =
      (next, .ok answer.id)) :
    SavesFrame args row next ↔ KeepsModel args row (Registry.normalizeModel text
      (bindFromCatalog catalog (modelFor args byId row given))) := by
  rcases bindFromCatalog_spec catalog (modelFor args byId row given) with
    ⟨ids, upstream, isModel, _, _⟩
  have sameId : (Registry.normalizeModel text
      (bindFromCatalog catalog (modelFor args byId row given))).id = row.id := by
    rw [isModel]
    exact modelFor_id
  have present : (bindFromCatalog catalog (modelFor args byId row given)).id ∈
      registry.models.models.map (·.id) :=
    List.mem_map.mpr ⟨row, found.mem, sameId.symm⟩
  have isWritten := Registry.saveModel_eq_ok present isSaved
  constructor
  · rintro ⟨new, inside, isRow, keeps⟩
    rw [Registry.model_ext isWritten inside (sameId.trans isRow.symm)]
    exact keeps
  · intro keeps
    exact ⟨_, isWritten, sameId, keeps⟩

/-- What is saved for a row, where the call does not give it. -/
structure SavedFor (outside : Double → ℤ) (text : TextLibrary) (args : Fields) (byId : Bool)
    (row saved : Model) : Prop where
  aliasName : saved.aliasName = aliasArg outside args
  upstreamName : hasArg args "upstream_name" = false → hasArg args "upstream" = false →
    saved.upstreamName = row.upstreamName
  lbPolicy : hasArg args "lb_policy" = false → saved.lbPolicy = row.lbPolicy
  enabled : hasArg args "enabled" = false → saved.enabled = if byId then row.enabled else true
  bound : saved.backendIds ≠ []
  backendIds : hasArg args "backend_ids" = false → row.backendIds ≠ [] →
    saved.backendIds = row.backendIds
  maxContext : hasArg args "max_context" = false → saved.maxContext = row.maxContext
  fallback : hasArg args "fallback" = false →
    (saved.fallback = row.fallback ↔ row.fallback = "" ∨ row.fallback ≠ aliasArg outside args)
  promptCache : hasArg args "prompt_cache" = false → saved.promptCache = row.promptCache
  params : hasArg args "params" = false → saved.params = row.params
  media : hasArg args "media" = false → saved.media = if byId then row.media else noMedia text
  hubShare : hasArg args "hub_share" = false → saved.hubShare = row.hubShare
  hubNodeID : saved.hubNodeID = ""
  hubNodeName : saved.hubNodeName = ""

theorem savedFor (accepted : givenModel outside text codec args = .ok given)
    (settled : Registry.normalizeModel text row = row) (named : row.aliasName ≠ "")
    (bound : (bindFromCatalog catalog (modelFor args byId row given)).backendIds ≠ []) :
    SavedFor outside text args byId row (Registry.normalizeModel text
      (bindFromCatalog catalog (modelFor args byId row given))) := by
  rcases givenModel_eq_ok accepted with
    ⟨isAlias, isUpstream, isPolicy, isEnabled, _, isMedia, isNode, isNodeName⟩
  rcases bindFromCatalog_spec catalog (modelFor args byId row given) with
    ⟨ids, upstream, isModel, keepsIds, keepsName⟩
  rw [isModel] at bound ⊢
  have aliasIs : (modelFor args byId row given).aliasName = aliasArg outside args := by
    rw [← isAlias]
    cases byId <;> rfl
  have nodeIs : (modelFor args byId row given).hubNodeID = "" := by
    rw [← isNode]
    cases byId <;> rfl
  constructor
  · exact aliasIs
  · intro absent alsoAbsent
    have unnamed : given.upstreamName = "" := by
      rw [isUpstream, strArg_of_absent absent, strArg_of_absent alsoAbsent, strArg]
    have isRow : (modelFor args byId row given).upstreamName = row.upstreamName := by
      cases byId <;> exact if_pos unnamed
    have stored := congrArg (·.upstreamName) settled
    simp only [Registry.normalizeModel] at stored
    have hasName : row.upstreamName ≠ "" := by
      intro blank
      rw [if_pos blank, blank] at stored
      exact named stored
    simp only [Registry.normalizeModel]
    rw [keepsName (by rwa [isRow]), isRow, if_neg hasName]
  · intro absent
    have unnamed : given.lbPolicy = "" := by
      rw [isPolicy, strArg_of_absent absent, strArg]
    have isRow : (modelFor args byId row given).lbPolicy = row.lbPolicy := by
      cases byId <;> exact if_pos unnamed
    have stored := congrArg (·.lbPolicy) settled
    simp only [Registry.normalizeModel] at stored ⊢
    rw [isRow]
    exact stored
  · intro absent
    cases byId with
    | true => simp [Registry.normalizeModel, modelFor, mergeById, absent]
    | false => simp [Registry.normalizeModel, modelFor, isEnabled, absent]
  · exact bound
  · intro absent isBound
    have isRow : (modelFor args byId row given).backendIds = row.backendIds := by
      cases byId <;> simp [modelFor, mergeById, absent]
    simp only [Registry.normalizeModel]
    rw [keepsIds (by rwa [isRow]), isRow]
  · intro absent
    cases byId <;> simp [Registry.normalizeModel, modelFor, mergeById, absent]
  · intro absent
    have isRow : (modelFor args byId row given).fallback = row.fallback := by
      cases byId <;> simp [modelFor, mergeById, absent]
    simp only [Registry.normalizeModel]
    rw [isRow, aliasIs]
    exact Registry.fallback_kept_iff settled _
  · intro absent
    have isRow : (modelFor args byId row given).promptCache = row.promptCache := by
      cases byId <;> simp [modelFor, mergeById, absent]
    have stored := congrArg (·.promptCache) settled
    simp only [Registry.normalizeModel] at stored ⊢
    rw [isRow]
    exact stored
  · intro absent
    cases byId <;> simp [Registry.normalizeModel, modelFor, mergeById, absent]
  · intro absent
    have stored := congrArg (·.media) settled
    simp only [Registry.normalizeModel] at stored
    cases byId with
    | true => simp [Registry.normalizeModel, modelFor, mergeById, absent, stored]
    | false => simp [Registry.normalizeModel, modelFor, isMedia, mediaArg, absent, noMedia]
  · intro absent
    have isRow : (modelFor args byId row given).hubShare = row.hubShare := by
      cases byId <;> simp [modelFor, mergeById, absent]
    simp [Registry.normalizeModel, nodeIs, isRow]
  · exact nodeIs
  · change (modelFor args byId row given).hubNodeName = ""
    rw [← isNodeName]
    cases byId <;> rfl

variable {saved : Model}

/-- What is saved for a row keeps what the call does not give exactly under the condition. -/
theorem SavedFor.keepsModel_iff (isSaved : SavedFor outside text args byId row saved) :
    KeepsModel args row saved ↔ KeepsRow outside text args byId row := by
  constructor
  · intro keeps
    constructor
    · exact ⟨keeps.hubNodeID.symm.trans isSaved.hubNodeID,
        keeps.hubNodeName.symm.trans isSaved.hubNodeName⟩
    · rw [← Bool.not_eq_false, or_iff_not_imp_left, not_not]
      intro absent
      rw [← keeps.backendIds absent]
      exact isSaved.bound
    · rw [← Bool.not_eq_false, or_iff_not_imp_left, not_not]
      intro absent
      exact (isSaved.fallback absent).mp (keeps.fallback absent)
    · rw [← Bool.not_eq_false, or_iff_not_imp_left, not_not]
      intro absent
      rw [← keeps.aliasName absent]
      exact isSaved.aliasName
    · cases byId with
      | true => exact Or.inl rfl
      | false =>
          right
          rw [← Bool.not_eq_false, or_iff_not_imp_left, not_not]
          intro absent
          rw [← keeps.enabled absent, isSaved.enabled absent]
          rfl
    · cases byId with
      | true => exact Or.inl rfl
      | false =>
          right
          rw [← Bool.not_eq_false, or_iff_not_imp_left, not_not]
          intro absent
          rw [← keeps.media absent, isSaved.media absent]
          rfl
  · intro keeps
    constructor
    · intro absent
      rw [isSaved.aliasName]
      exact (keeps.aliasName.resolve_left (by simp [absent])).symm
    · exact isSaved.upstreamName
    · exact isSaved.lbPolicy
    · intro absent
      rw [isSaved.enabled absent]
      rcases keeps.enabled with isId | isGiven | isOn
      · rw [if_pos isId]
      · rw [absent] at isGiven
        exact nomatch isGiven
      · rw [isOn, ite_self]
    · intro absent
      exact isSaved.backendIds absent (keeps.backends.resolve_left (by simp [absent]))
    · exact isSaved.maxContext
    · intro absent
      exact (isSaved.fallback absent).mpr (keeps.fallback.resolve_left (by simp [absent]))
    · exact isSaved.promptCache
    · exact isSaved.params
    · intro absent
      rw [isSaved.media absent]
      rcases keeps.media with isId | isGiven | isNone
      · rw [if_pos isId]
      · rw [absent] at isGiven
        exact nomatch isGiven
      · rw [← isNone, ite_self]
    · exact isSaved.hubShare
    · exact isSaved.hubNodeID.trans keeps.isLocal.1.symm
    · exact isSaved.hubNodeName.trans keeps.isLocal.2.symm

end Merging

section Agreement

variable {outside : Double → ℤ} {text : TextLibrary} {codec : Codec} {args others : Fields}
  {catalog : List CatalogModel} {registry next : Registry} {answer : ModelAnswer}
  {given row model other : Model} {id : ModelId}

theorem strArg_congr {keys : List String}
    (alike : ∀ key ∈ keys, fieldOf args key = fieldOf others key) :
    strArg outside args keys = strArg outside others keys := by
  induction keys with
  | nil => rfl
  | cons key rest ih =>
      rw [List.forall_mem_cons] at alike
      simp only [strArg, alike.1, ih alike.2]

theorem hasArg_congr {key : String} (alike : fieldOf args key = fieldOf others key) :
    hasArg args key = hasArg others key := by
  rw [hasArg, hasArg, alike]

theorem boolArg_congr {key : String} {default : Bool}
    (alike : fieldOf args key = fieldOf others key) :
    boolArg args key default = boolArg others key default := by
  unfold boolArg
  rw [alike]

theorem intArg_congr {key : String} (alike : fieldOf args key = fieldOf others key) :
    intArg outside args [key] = intArg outside others [key] := by
  unfold intArg
  rw [alike]
  rfl

theorem strSlice_congr {key : String} (alike : fieldOf args key = fieldOf others key) :
    strSlice outside args key = strSlice outside others key := by
  unfold strSlice
  rw [alike]

theorem intSlice_congr {key : String} (alike : fieldOf args key = fieldOf others key) :
    intSlice outside args key = intSlice outside others key := by
  unfold intSlice
  rw [alike, intArg_congr alike]

theorem paramsArg_congr (alike : fieldOf args "params" = fieldOf others "params") :
    paramsArg outside codec args = paramsArg outside codec others := by
  unfold paramsArg
  rw [alike, hasArg_congr alike]

/-- The model of the arguments does not depend on the id. -/
theorem givenModel_congr (alike : AlikeButId args others) :
    givenModel outside text codec args = givenModel outside text codec others := by
  have texts (keys : List String) (noId : "id" ∉ keys) :
      strArg outside args keys = strArg outside others keys :=
    strArg_congr fun key inside => alike key fun isId => noId (isId ▸ inside)
  have sameAlias : aliasArg outside args = aliasArg outside others := by
    rw [aliasArg, aliasArg, texts ["alias"] (by decide),
      texts ["upstream_name", "upstream"] (by decide)]
  have sameMedia : mediaArg outside text args = mediaArg outside text others := by
    unfold mediaArg
    rw [hasArg_congr (alike "media" (by decide)), strSlice_congr (alike "media" (by decide)),
      texts ["media"] (by decide)]
  unfold givenModel
  rw [sameAlias, sameMedia, paramsArg_congr (alike "params" (by decide)),
    texts ["upstream_name", "upstream"] (by decide), texts ["lb_policy"] (by decide),
    texts ["fallback"] (by decide), texts ["prompt_cache"] (by decide),
    hasArg_congr (alike "enabled" (by decide)), boolArg_congr (alike "enabled" (by decide)),
    hasArg_congr (alike "prompt_cache" (by decide)), hasArg_congr (alike "hub_share" (by decide)),
    boolArg_congr (alike "hub_share" (by decide)),
    intSlice_congr (alike "backend_ids" (by decide)),
    intArg_congr (alike "max_context" (by decide))]

theorem mergeById_congr (alike : AlikeButId args others) (row given : Model) :
    mergeById args row given = mergeById others row given := by
  unfold mergeById
  rw [hasArg_congr (alike "enabled" (by decide)), hasArg_congr (alike "max_context" (by decide)),
    hasArg_congr (alike "fallback" (by decide)), hasArg_congr (alike "prompt_cache" (by decide)),
    hasArg_congr (alike "hub_share" (by decide)), hasArg_congr (alike "media" (by decide)),
    hasArg_congr (alike "backend_ids" (by decide)), hasArg_congr (alike "params" (by decide))]

/-- The catalog is about names and backends. -/
theorem bindFromCatalog_with (catalog : List CatalogModel) (model : Model) (enabled : Bool)
    (media : List String) :
    bindFromCatalog catalog { model with enabled := enabled, media := media } =
      { bindFromCatalog catalog model with enabled := enabled, media := media } := by
  by_cases unbound : model.backendIds = []
  · simp only [bindFromCatalog, if_pos unbound]
    cases catalog.find? fun entry =>
      entry.name = model.upstreamName || entry.name = model.aliasName <;> rfl
  · simp only [bindFromCatalog, if_neg unbound]

/-- The call by the id and the call by the alias store the same exactly when both give the row the
same flag and the same media. -/
theorem sameStored_iff (settled : Registry.normalizeModel text row = row)
    (named : row.aliasName ≠ "") (alike : AlikeButId args others)
    (foundById : FindsModel outside registry args row true)
    (foundByAlias : FindsModel outside registry others row false)
    (done : toolSaveModel outside text codec catalog registry args = (next, .ok answer)) :
    (toolSaveModel outside text codec catalog registry others).1 = next ↔
      BothWays text args row := by
  rcases toolSaveModel_eq_ok done foundById with ⟨given, accepted, bound, saved⟩
  have acceptedToo : givenModel outside text codec others = .ok given := by
    rw [← givenModel_congr alike, accepted]
  have isByAlias : bindFromCatalog catalog (modelFor others false row given) =
      { bindFromCatalog catalog (modelFor args true row given) with
        enabled := given.enabled, media := given.media } := by
    rw [← bindFromCatalog_with]
    simp only [modelFor, mergeById_congr alike, Bool.false_eq_true, if_false, if_true]
  have boundToo : (bindFromCatalog catalog (modelFor others false row given)).backendIds ≠ [] := by
    rw [isByAlias]
    exact bound
  have stored : (toolSaveModel outside text codec catalog registry others).1 =
      (registry.saveModel text
        (bindFromCatalog catalog (modelFor others false row given))).1 := by
    simp only [toolSaveModel, acceptedToo, mergedModel_eq acceptedToo foundByAlias, if_neg boundToo]
    split <;> simp_all
  have isFor := savedFor accepted settled named bound
  have isForToo := savedFor acceptedToo settled named boundToo
  rcases bindFromCatalog_spec catalog (modelFor args true row given) with ⟨ids, upstream, isById, _⟩
  have isRow : (bindFromCatalog catalog (modelFor args true row given)).id = row.id := by
    rw [isById]
    exact modelFor_id
  have isRowToo : (bindFromCatalog catalog (modelFor others false row given)).id = row.id := by
    rw [isByAlias]
    exact isRow
  have inside : row.id ∈ registry.models.models.map (·.id) :=
    List.mem_map_of_mem foundById.mem
  have flagGiven : hasArg args "enabled" = hasArg others "enabled" :=
    hasArg_congr (alike "enabled" (by decide))
  have mediaGiven : hasArg args "media" = hasArg others "media" :=
    hasArg_congr (alike "media" (by decide))
  rw [stored]
  constructor
  · intro same
    rcases Registry.saveModel_ok_congr (by rwa [isRow]) saved (isRowToo.trans isRow.symm)
      (congrArg (·.aliasName) isByAlias) (congrArg (·.backendIds) isByAlias) with ⟨last, savedToo⟩
    have isLast : last = next := by rw [← same, savedToo]
    rw [isLast] at savedToo
    have sameRow := Registry.model_ext (Registry.saveModel_eq_ok (by rwa [isRow]) saved)
      (Registry.saveModel_eq_ok (by rwa [isRowToo]) savedToo) (isRow.trans isRowToo.symm)
    constructor
    · rw [← Bool.not_eq_false, or_iff_not_imp_left, not_not]
      intro absent
      have flag := isFor.enabled absent
      rw [sameRow, isForToo.enabled (flagGiven ▸ absent)] at flag
      exact flag.symm
    · rw [← Bool.not_eq_false, or_iff_not_imp_left, not_not]
      intro absent
      have media := isFor.media absent
      rw [sameRow, isForToo.media (mediaGiven ▸ absent)] at media
      exact media.symm
  · rintro ⟨flag, media⟩
    have sameFlag : (Registry.normalizeModel text
        (bindFromCatalog catalog (modelFor args true row given))).enabled = given.enabled := by
      cases isGiven : hasArg args "enabled" with
      | true =>
          rw [isById]
          simp [Registry.normalizeModel, modelFor, mergeById, isGiven]
      | false =>
          rw [isFor.enabled isGiven, (givenModel_eq_ok accepted).2.2.2.1, isGiven]
          exact flag.resolve_left (by simp [isGiven])
    have sameMedia : (Registry.normalizeModel text
        (bindFromCatalog catalog (modelFor args true row given))).media =
          parseMedia text (joinMedia text given.media) := by
      cases isGiven : hasArg args "media" with
      | true =>
          rw [isById]
          simp [Registry.normalizeModel, modelFor, mergeById, isGiven]
      | false =>
          rw [isFor.media isGiven, (givenModel_eq_ok accepted).2.2.2.2.2.1, mediaArg, isGiven]
          exact media.resolve_left (by simp [isGiven])
    have sameModel : Registry.normalizeModel text
        (bindFromCatalog catalog (modelFor others false row given)) =
          Registry.normalizeModel text
            (bindFromCatalog catalog (modelFor args true row given)) := by
      rw [isByAlias, Registry.normalizeModel_with, ← sameFlag, ← sameMedia]
    rw [Registry.saveModel_congr sameModel, saved]

end Agreement

/-- A call that succeeds keeps the fields of the row that it does not give exactly under the
condition on the row; and where the row is found by its id and by its alias, the same is stored
exactly when the row is enabled and without media, unless these are given. -/
theorem saveModel_preserves_iff {text : TextLibrary} (outside : Double → ℤ) (codec : Codec)
    (catalog : List CatalogModel) (store : SavedModels text) :
    (∀ (args : Fields) (row : Model) (byId : Bool) (next : Registry) (answer : ModelAnswer),
      FindsModel outside store.registry args row byId →
        toolSaveModel outside text codec catalog store.registry args = (next, .ok answer) →
          (SavesFrame args row next ↔ KeepsRow outside text args byId row)) ∧
      ∀ (args others : Fields) (row : Model) (next : Registry) (answer : ModelAnswer),
        AlikeButId args others → FindsModel outside store.registry args row true →
          FindsModel outside store.registry others row false →
            toolSaveModel outside text codec catalog store.registry args = (next, .ok answer) →
              ((toolSaveModel outside text codec catalog store.registry others).1 = next ↔
                BothWays text args row) := by
  constructor
  · intro args row byId next answer found done
    rcases toolSaveModel_eq_ok done found with ⟨given, accepted, bound, saved⟩
    rw [savesFrame_iff found saved]
    exact (savedFor accepted (store.settled row found.mem) (store.named row found.mem)
      bound).keepsModel_iff
  · intro args others row next answer alike foundById foundByAlias done
    exact sameStored_iff (store.settled row foundById.mem) (store.named row foundById.mem) alike
      foundById foundByAlias done

section Trials

/-- A disabled model of images. -/
def disabledModel : Model where
  id := 1
  aliasName := "paint"
  upstreamName := "flux"
  lbPolicy := "least_conn"
  enabled := false
  backendIds := [1]
  maxContext := 4096
  fallback := ""
  promptCache := "inherit"
  params := ""
  media := ["image"]
  hubShare := false
  hubNodeID := ""
  hubNodeName := ""

def disabledStore : SavedModels asciiText where
  registry :=
    { models := ⟨[disabledModel], [⟨1, "gpu", "http://10.0.0.5:8000", .vllm, "", true⟩], by decide,
        by decide, by decide, by decide⟩
      queues := ⟨[], [], [], List.nodup_nil, List.nodup_nil, List.nodup_nil, Registry.owners_nil⟩
      nextModel := 2
      nextQueue := 1
      nextModel_pos := Nat.two_pos
      nextQueue_pos := Nat.one_pos
      models_id_pos := by decide
      models_id_lt := by decide
      queues_id_pos := Registry.rows_pos_nil
      queues_id_lt := Registry.rows_lt_one }
  settled := by
    intro model inside
    rw [List.mem_singleton.mp inside]
    decide +kernel
  named := by
    intro model inside
    rw [List.mem_singleton.mp inside]
    decide

/-- Bytes are no documents. -/
noncomputable def noDocuments : Codec :=
  knownCodec ⟨[], by decide, by decide⟩

/-- The context of the model is changed by its alias. -/
def contextByAlias : Fields :=
  [("alias", .string "paint"), ("max_context", .number ⟨8192, 0⟩)]

/-- The same by its id. -/
def contextById : Fields :=
  ("id", .number ⟨1, 0⟩) :: contextByAlias

theorem alike_context : AlikeButId contextById contextByAlias := by
  intro key other
  simp [contextById, fieldOf, Ne.symm other]

theorem found_contextById :
    FindsModel leastInt64 disabledStore.registry contextById disabledModel true := by
  have isId : idArg leastInt64 contextById = some 1 := by
    decide
  have isRow : getModel disabledStore.registry 1 = some disabledModel := by
    decide
  exact .byId isId isRow

theorem found_contextByAlias :
    FindsModel leastInt64 disabledStore.registry contextByAlias disabledModel false := by
  have noId : idArg leastInt64 contextByAlias = none := by
    decide
  have isRow : disabledStore.registry.models.getModelByAlias
      (aliasArg leastInt64 contextByAlias) = some disabledModel := by
    decide
  exact .byAlias noId isRow

/-- The call by the id. -/
noncomputable def savedById : Registry × Except ModelError ModelAnswer :=
  toolSaveModel leastInt64 asciiText noDocuments [] disabledStore.registry contextById

theorem savedById_eq_ok : savedById = (savedById.1, .ok ⟨1, "paint"⟩) := by
  have succeeds : savedById.2.toOption = some ⟨1, "paint"⟩ := by
    decide
  cases outcome : savedById with
  | mk next result =>
      rw [outcome] at succeeds
      cases result with
      | error error => exact nomatch succeeds
      | ok answer =>
          simp only [Except.toOption, Option.some.injEq] at succeeds
          rw [succeeds]

/-- The call by the id keeps the row, the call by the alias does not store the same. -/
theorem saveModel_preserves_iff_disabled :
    savedById.1.models.models = [{ disabledModel with maxContext := 8192 }] ∧
      (SavesFrame contextById disabledModel savedById.1 ↔
        KeepsRow leastInt64 asciiText contextById true disabledModel) ∧
      ((toolSaveModel leastInt64 asciiText noDocuments [] disabledStore.registry
        contextByAlias).1 = savedById.1 ↔ BothWays asciiText contextById disabledModel) := by
  have preserves := saveModel_preserves_iff leastInt64 noDocuments [] disabledStore
  exact ⟨by decide +kernel,
    preserves.1 contextById disabledModel true _ _ found_contextById savedById_eq_ok,
    preserves.2 contextById contextByAlias disabledModel _ _ alike_context found_contextById
      found_contextByAlias savedById_eq_ok⟩

/-- The model is enabled when its context is changed by its alias. -/
theorem not_saveModel_preserves :
    ¬∀ (text : TextLibrary) (outside : Double → ℤ) (codec : Codec) (catalog : List CatalogModel)
        (store : SavedModels text) (args : Fields) (row : Model) (byId : Bool) (next : Registry)
        (answer : ModelAnswer), FindsModel outside store.registry args row byId →
      toolSaveModel outside text codec catalog store.registry args = (next, .ok answer) →
        SavesFrame args row next := by
  intro claim
  have ran : (toolSaveModel leastInt64 asciiText noDocuments [] disabledStore.registry
      contextByAlias).2.toOption.isSome = true := by
    decide
  have enabled : (toolSaveModel leastInt64 asciiText noDocuments [] disabledStore.registry
      contextByAlias).1.models.models.map (·.enabled) = [true] := by
    decide
  cases done : toolSaveModel leastInt64 asciiText noDocuments [] disabledStore.registry
      contextByAlias with
  | mk next result =>
      rw [done] at ran enabled
      cases result with
      | error error => exact nomatch ran
      | ok answer =>
          rcases claim _ _ _ _ _ _ _ _ next answer found_contextByAlias done with
            ⟨new, inside, _, keeps⟩
          have isOn : new.enabled ∈ next.models.models.map (·.enabled) := List.mem_map_of_mem inside
          rw [enabled, keeps.enabled (by decide)] at isOn
          exact absurd isOn (by decide)

end Trials

end MikroLLM.Mcp
