import Mathlib.Data.List.Basic
import MikroLLM.Domain.Media
import MikroLLM.Library.Keyed
import MikroLLM.Store.Models
import MikroLLM.Store.Queue

/-!
# Saving models and queues

The operations of the store that give a name to a model or a queue, and those
that take it away. A save is several statements without a transaction: what the
first of them wrote stays, when a later one fails.
-/

namespace MikroLLM.Store

open Domain Go Library

/-- The error of a save: a text of the store, or a constraint of the schema. -/
inductive SaveError
  | text (message : String)
  | constraint
  deriving DecidableEq

/-- A queue as the admin page and the tools fill it in, with the alias and the cap of each step. -/
structure QueueDraft where
  id : QueueId
  name : String
  aliasName : String
  enabled : Bool
  overflowAfter : ℤ
  overflowAlias : String
  maxWaitMS : ℤ
  steps : List (String × ℤ)

/-- The row that `SaveQueue` writes. -/
def QueueDraft.row (draft : QueueDraft) : QueueRow where
  id := draft.id
  name := trimSpace draft.name
  aliasName := trimSpace draft.aliasName
  enabled := draft.enabled
  overflowAfter := max draft.overflowAfter 0
  overflowAlias := trimSpace draft.overflowAlias
  maxWaitMS := draft.maxWaitMS

/-- The tables that hold names; the two counters are those of `AUTOINCREMENT`. -/
structure Registry where
  models : ModelTables
  queues : QueueTables
  nextModel : ModelId
  nextQueue : QueueId
  nextModel_pos : 0 < nextModel
  nextQueue_pos : 0 < nextQueue
  models_id_pos : ∀ model ∈ models.models, 0 < model.id
  models_id_lt : ∀ model ∈ models.models, model.id < nextModel
  queues_id_pos : ∀ row ∈ queues.queues, 0 < row.id
  queues_id_lt : ∀ row ∈ queues.queues, row.id < nextQueue

namespace Registry

theorem owners_nil :
    ∀ entry ∈ ([] : List (String × QueueId)), entry.2 ∈ ([] : List QueueRow).map (·.id) := by
  simp

theorem rows_pos_nil : ∀ row ∈ ([] : List QueueRow), 0 < row.id := by
  simp

theorem rows_lt_one : ∀ row ∈ ([] : List QueueRow), row.id < 1 := by
  simp

/-- A store without models and queues. -/
def empty (backends : List Backend) (nodup : (backends.map (·.id)).Nodup)
    (pos : ∀ backend ∈ backends, 0 < backend.id) : Registry where
  models := ⟨[], backends, List.nodup_nil, List.nodup_nil, nodup, pos⟩
  queues := ⟨[], [], [], List.nodup_nil, List.nodup_nil, List.nodup_nil, owners_nil⟩
  nextModel := 1
  nextQueue := 1
  nextModel_pos := Nat.one_pos
  nextQueue_pos := Nat.one_pos
  models_id_pos := by simp
  models_id_lt := by simp
  queues_id_pos := rows_pos_nil
  queues_id_lt := rows_lt_one

variable (registry : Registry)

/-- `Store.AliasTaken`. -/
def aliasTaken (name : String) (exceptQueue : QueueId) (exceptModel : ModelId) : Bool :=
  let name := trimSpace name
  name = "" ||
    (registry.models.models.any fun model => model.aliasName = name && model.id ≠ exceptModel) ||
    (registry.queues.queues.any fun row => row.aliasName = name && row.id ≠ exceptQueue) ||
    registry.queues.aliases.any fun entry => entry.1 = name && entry.2 ≠ exceptQueue

section Models

/-- The values that `SaveModel` writes. -/
def normalizeModel (text : TextLibrary) (model : Model) : Model :=
  let promptCache := text.toLower (trimSpace model.promptCache)
  let fallback := trimSpace model.fallback
  { model with
    lbPolicy := if model.lbPolicy = "" then "least_conn" else model.lbPolicy
    promptCache := if promptCache ∈ ["inherit", "off", "auto", "on"] then promptCache else "inherit"
    upstreamName := if model.upstreamName = "" then model.aliasName else model.upstreamName
    fallback := if fallback = model.aliasName then "" else fallback
    media := parseMedia text (joinMedia text model.media)
    hubShare := if model.hubNodeID ≠ "" then false else model.hubShare }

/-- `INSERT INTO models`; none when the alias is not unique. -/
def insertModel (row : Model) : Option Registry :=
  if free : ∀ old ∈ registry.models.models, old.aliasName ≠ row.aliasName then
    some { registry with
      models := { registry.models with
        models := registry.models.models ++ [{ row with id := registry.nextModel }]
        models_id_nodup := append_map_nodup registry.models.models_id_nodup fun old inside =>
          Nat.ne_of_lt (registry.models_id_lt old inside)
        models_alias_nodup := append_map_nodup registry.models.models_alias_nodup free }
      nextModel := registry.nextModel + 1
      nextModel_pos := Nat.succ_pos _
      models_id_pos :=
        append_forall_key (p := (0 < ·)) registry.models_id_pos registry.nextModel_pos
      models_id_lt := append_key_lt registry.models_id_lt rfl }
  else none

/-- `UPDATE models`; none when the alias is not unique. -/
def updateModel (row : Model) : Option Registry :=
  if row.id ∈ registry.models.models.map (·.id) then
    if free : ∀ old ∈ registry.models.models, old.id ≠ row.id → old.aliasName ≠ row.aliasName then
      some { registry with
        models := { registry.models with
          models := overwrite (·.id) row registry.models.models
          models_id_nodup := by
            rw [overwrite_map_key]
            exact registry.models.models_id_nodup
          models_alias_nodup := overwrite_map_nodup registry.models.models_id_nodup
            registry.models.models_alias_nodup free }
        models_id_pos := overwrite_forall_key (p := (0 < ·)) registry.models_id_pos
        models_id_lt := overwrite_forall_key (p := (· < registry.nextModel)) registry.models_id_lt }
    else none
  else some registry

/-- The backends of a model that are written until a statement fails, and whether none does. -/
def insertBackends (known : List BackendId) : List BackendId → List BackendId →
    List BackendId × Bool
  | written, [] => (written, true)
  | written, id :: rest =>
      if id ∈ known ∧ id ∉ written then insertBackends known (written ++ [id]) rest
      else (written, false)

/-- `DELETE FROM model_backends` and the insertions after it. -/
def bindBackends (id : ModelId) (ids : List BackendId) : Registry × Bool :=
  let known :=
    if id ∈ registry.models.models.map (·.id) then registry.models.backends.map (·.id) else []
  let bound := insertBackends known [] ids
  let bind (model : Model) : Model :=
    if model.id = id then { model with backendIds := bound.1 } else model
  have sameId : ∀ model, (bind model).id = model.id := by
    intro model
    unfold bind
    split <;> rfl
  have sameAlias : ∀ model, (bind model).aliasName = model.aliasName := by
    intro model
    unfold bind
    split <;> rfl
  ({ registry with
    models := { registry.models with
      models := registry.models.models.map bind
      models_id_nodup := by
        simpa only [List.map_map, Function.comp_def, sameId] using registry.models.models_id_nodup
      models_alias_nodup := by
        simpa only [List.map_map, Function.comp_def, sameAlias] using
          registry.models.models_alias_nodup }
    models_id_pos := by
      intro model listed
      rcases List.mem_map.mp listed with ⟨old, inside, rfl⟩
      rw [sameId]
      exact registry.models_id_pos old inside
    models_id_lt := by
      intro model listed
      rcases List.mem_map.mp listed with ⟨old, inside, rfl⟩
      rw [sameId]
      exact registry.models_id_lt old inside }, bound.2)

/-- `Store.SaveModel`. -/
def saveModel (text : TextLibrary) (model : Model) : Registry × Except SaveError ModelId :=
  let row := normalizeModel text model
  if registry.aliasTaken row.aliasName 0 row.id then
    (registry, .error (.text ("alias " ++ row.aliasName ++ " already used")))
  else
    let written :=
      if row.id = 0 then (registry.insertModel row).map fun next => (next, registry.nextModel)
      else (registry.updateModel row).map fun next => (next, row.id)
    match written with
    | none => (registry, .error .constraint)
    | some (next, id) =>
        let bound := next.bindBackends id row.backendIds
        (bound.1, if bound.2 then .ok id else .error .constraint)

/-- `Store.DeleteModel`. -/
def deleteModel (id : ModelId) : Registry :=
  let gone := ((registry.models.models.find? (·.id = id)).map (·.aliasName)).getD ""
  let clear (model : Model) : Model :=
    if gone ≠ "" ∧ model.fallback = gone then { model with fallback := "" } else model
  have sameId : ∀ model, (clear model).id = model.id := by
    intro model
    unfold clear
    split <;> rfl
  have sameAlias : ∀ model, (clear model).aliasName = model.aliasName := by
    intro model
    unfold clear
    split <;> rfl
  { registry with
    models := { registry.models with
      models := (registry.models.models.filter (·.id ≠ id)).map clear
      models_id_nodup := by
        rw [List.map_map]
        simp only [Function.comp_def, sameId]
        exact registry.models.models_id_nodup.sublist (List.filter_sublist.map _)
      models_alias_nodup := by
        rw [List.map_map]
        simp only [Function.comp_def, sameAlias]
        exact registry.models.models_alias_nodup.sublist (List.filter_sublist.map _) }
    models_id_pos := by
      intro model listed
      rcases List.mem_map.mp listed with ⟨old, inside, rfl⟩
      rw [sameId]
      exact registry.models_id_pos old (List.mem_of_mem_filter inside)
    models_id_lt := by
      intro model listed
      rcases List.mem_map.mp listed with ⟨old, inside, rfl⟩
      rw [sameId]
      exact registry.models_id_lt old (List.mem_of_mem_filter inside) }

/-- The model that `ConnectOllamaModel` saves. -/
def ollamaModel (text : TextLibrary) (name : String) (backendIds : List BackendId)
    (policy : String) (maxContext : ℤ) : Except SaveError Model :=
  let name := trimSpace name
  if name = "" ∨ backendIds = [] then .error (.text "model and backends required")
  else
    match registry.models.getModelByAlias name with
    | none => .ok {
        id := 0
        aliasName := name
        upstreamName := name
        lbPolicy := if policy = "" then "least_conn" else policy
        enabled := true
        backendIds := backendIds
        maxContext := maxContext
        fallback := ""
        promptCache := ""
        params := ""
        media := inferMedia text name []
        hubShare := false
        hubNodeID := ""
        hubNodeName := "" }
    | some old => .ok { old with
        backendIds := backendIds
        enabled := true
        upstreamName := if old.upstreamName = "" then name else old.upstreamName
        maxContext := if old.maxContext = 0 ∧ 0 < maxContext then maxContext else old.maxContext }

/-- The name of a hub node, by default the start of its id. -/
def hubNodeName (nodeID nodeName : String) : String :=
  if nodeName = "" then String.ofList (firstBytes 10 nodeID.toList) else nodeName

/-- The model that `ConnectHubModel` saves. -/
def hubModel (text : TextLibrary) (name nodeID nodeName : String) (maxContext : ℤ)
    (media : List String) : Except SaveError Model :=
  let name := trimSpace name
  let nodeID := trimSpace nodeID
  let nodeName := hubNodeName nodeID (trimSpace nodeName)
  if name = "" ∨ nodeID = "" then .error (.text "hub model and node required")
  else
    let create (wanted : String) : Model := {
      id := 0
      aliasName := wanted
      upstreamName := name
      lbPolicy := "least_conn"
      enabled := true
      backendIds := []
      maxContext := maxContext
      fallback := ""
      promptCache := ""
      params := ""
      media := if media = [] then inferMedia text name [] else media
      hubShare := false
      hubNodeID := nodeID
      hubNodeName := nodeName }
    match registry.models.getModelByAlias name with
    | none => .ok (create name)
    | some old =>
        if old.hubNodeID = nodeID then .ok { old with
          enabled := true
          upstreamName := name
          hubNodeName := nodeName
          maxContext := if 0 < maxContext then maxContext else old.maxContext
          media := if media = [] then old.media else media
          hubShare := false }
        else .ok (create (name ++ "@" ++ nodeName))

/-- The model that `UpsertHubAuto` saves. -/
def hubAutoModel (text : TextLibrary) (nodeID nodeName upstream : String) (maxContext : ℤ)
    (media : List String) : Except SaveError Model :=
  let nodeID := trimSpace nodeID
  let upstream := trimSpace upstream
  if nodeID = "" ∨ upstream = "" then .error (.text "hub auto node and alias required")
  else
    let old := (registry.models.getModelByAlias hubAutoAlias).getD {
      id := 0
      aliasName := hubAutoAlias
      upstreamName := ""
      lbPolicy := "least_conn"
      enabled := false
      backendIds := []
      maxContext := 0
      fallback := ""
      promptCache := ""
      params := ""
      media := []
      hubShare := false
      hubNodeID := ""
      hubNodeName := "" }
    .ok { old with
      aliasName := hubAutoAlias
      upstreamName := upstream
      enabled := true
      hubShare := false
      hubNodeID := nodeID
      hubNodeName := hubNodeName nodeID nodeName
      backendIds := []
      maxContext := if 0 < maxContext then maxContext else old.maxContext
      media :=
        if media ≠ [] then media
        else if old.media = [] then inferMedia text upstream []
        else old.media }

/-- A save of the model that was made up, unless there is none. -/
def saveMade (text : TextLibrary) : Except SaveError Model → Registry × Except SaveError Unit
  | .error refusal => (registry, .error refusal)
  | .ok model =>
      let saved := registry.saveModel text model
      (saved.1, saved.2.map fun _ => ())

/-- `Store.ConnectOllamaModel`. -/
def connectOllamaModel (text : TextLibrary) (name : String) (backendIds : List BackendId)
    (policy : String) (maxContext : ℤ) : Registry × Except SaveError Unit :=
  registry.saveMade text (registry.ollamaModel text name backendIds policy maxContext)

/-- `Store.ConnectHubModel`. -/
def connectHubModel (text : TextLibrary) (name nodeID nodeName : String) (maxContext : ℤ)
    (media : List String) : Registry × Except SaveError Unit :=
  registry.saveMade text (registry.hubModel text name nodeID nodeName maxContext media)

/-- `Store.UpsertHubAuto`. -/
def upsertHubAuto (text : TextLibrary) (nodeID nodeName upstream : String) (maxContext : ℤ)
    (media : List String) : Registry × Except SaveError Unit :=
  registry.saveMade text (registry.hubAutoModel text nodeID nodeName upstream maxContext media)

variable {registry} {text : TextLibrary} {next : Registry}

/-- A row keeps its id and its alias when its backends are written. -/
theorem bindBackends_models {id : ModelId} {ids : List BackendId} {model : Model}
    (listed : model ∈ (registry.bindBackends id ids).1.models.models) :
    ∃ old ∈ registry.models.models, old.id = model.id ∧ old.aliasName = model.aliasName := by
  rcases List.mem_map.mp listed with ⟨old, inside, rfl⟩
  refine ⟨old, inside, ?_, ?_⟩
  all_goals
    split <;> rfl

theorem insertModel_spec {row : Model} (inserts : registry.insertModel row = some next) :
    next.queues = registry.queues ∧ (∀ old ∈ registry.models.models, old.aliasName ≠ row.aliasName) ∧
      ∀ model ∈ next.models.models, model ∈ registry.models.models ∨
        (model.id = registry.nextModel ∧ model.aliasName = row.aliasName) := by
  unfold insertModel at inserts
  split at inserts
  · rename_i free
    cases inserts
    refine ⟨rfl, free, ?_⟩
    intro model listed
    rcases List.mem_append.mp listed with old | new
    · exact Or.inl old
    · rw [List.mem_singleton] at new
      rw [new]
      exact Or.inr ⟨rfl, rfl⟩
  · cases inserts

theorem updateModel_spec {row : Model} (updates : registry.updateModel row = some next) :
    next = registry ∨ (next.queues = registry.queues ∧
      row.id ∈ registry.models.models.map (·.id) ∧
      (∀ old ∈ registry.models.models, old.id ≠ row.id → old.aliasName ≠ row.aliasName) ∧
        ∀ model ∈ next.models.models, model ∈ registry.models.models ∨
          (model.id = row.id ∧ model.aliasName = row.aliasName)) := by
  unfold updateModel at updates
  split at updates
  · rename_i present
    split at updates
    · rename_i free
      cases updates
      refine Or.inr ⟨rfl, present, free, ?_⟩
      intro model listed
      rcases mem_overwrite listed with ⟨rfl, _⟩ | ⟨old, _⟩
      · exact Or.inr ⟨rfl, rfl⟩
      · exact Or.inl old
    · cases updates
  · cases updates
    exact Or.inl rfl

/-- What `SaveModel` does to the names: nothing, or one row gets an alias that is not taken and
that no other model has. -/
theorem saveModel_spec (text : TextLibrary) (registry : Registry) (model : Model) :
    (registry.saveModel text model).1.queues = registry.queues ∧ ∃ id,
      ∀ saved ∈ (registry.saveModel text model).1.models.models,
        (∃ old ∈ registry.models.models, old.id = saved.id ∧ old.aliasName = saved.aliasName) ∨
          (saved.id = id ∧ saved.aliasName = model.aliasName ∧
            registry.aliasTaken model.aliasName 0 model.id = false ∧
            (model.id = 0 ∨ model.id ∈ registry.models.models.map (·.id)) ∧
            ∀ old ∈ registry.models.models, old.aliasName = model.aliasName → old.id = id) := by
  unfold saveModel
  simp only
  split
  · exact ⟨rfl, 0, fun saved listed => Or.inl ⟨saved, listed, rfl, rfl⟩⟩
  · rename_i notTaken
    have free : registry.aliasTaken model.aliasName 0 model.id = false :=
      Bool.eq_false_of_not_eq_true notTaken
    split
    · exact ⟨rfl, 0, fun saved listed => Or.inl ⟨saved, listed, rfl, rfl⟩⟩
    · rename_i next id written
      split at written
      · rename_i isNew
        rcases Option.map_eq_some_iff.mp written with ⟨inserted, inserts, same⟩
        cases same
        rcases insertModel_spec inserts with ⟨queues, unique, rows⟩
        refine ⟨queues, registry.nextModel, ?_⟩
        intro saved listed
        rcases bindBackends_models listed with ⟨row, inside, sameId, sameAlias⟩
        rcases rows row inside with old | ⟨isRow, alias'⟩
        · exact Or.inl ⟨row, old, sameId, sameAlias⟩
        · refine Or.inr ⟨sameId.symm.trans isRow, sameAlias.symm.trans alias', free, Or.inl isNew, ?_⟩
          intro old oldListed oldAlias
          exact absurd oldAlias (unique old oldListed)
      · rcases Option.map_eq_some_iff.mp written with ⟨updated, updates, same⟩
        cases same
        rcases updateModel_spec updates with rfl | ⟨queues, present, unique, rows⟩
        · refine ⟨rfl, 0, ?_⟩
          intro saved listed
          exact Or.inl (bindBackends_models listed)
        · refine ⟨queues, model.id, ?_⟩
          intro saved listed
          rcases bindBackends_models listed with ⟨row, inside, sameId, sameAlias⟩
          rcases rows row inside with old | ⟨isRow, alias'⟩
          · exact Or.inl ⟨row, old, sameId, sameAlias⟩
          · refine Or.inr ⟨sameId.symm.trans isRow, sameAlias.symm.trans alias', free,
              Or.inr present, ?_⟩
            intro old oldListed oldAlias
            by_contra other
            exact unique old oldListed other oldAlias

theorem deleteModel_models {id : ModelId} {model : Model}
    (listed : model ∈ (registry.deleteModel id).models.models) :
    ∃ old ∈ registry.models.models, old.id = model.id ∧ old.aliasName = model.aliasName := by
  rcases List.mem_map.mp listed with ⟨old, inside, rfl⟩
  refine ⟨old, List.mem_of_mem_filter inside, ?_, ?_⟩
  all_goals
    split <;> rfl

end Models

section Queues

/-- `INSERT INTO queues`; none when the alias is not unique. -/
def insertQueue (row : QueueRow) : Option Registry :=
  if free : ∀ old ∈ registry.queues.queues, old.aliasName ≠ row.aliasName then
    some { registry with
      queues := { registry.queues with
        queues := registry.queues.queues ++ [{ row with id := registry.nextQueue }]
        queues_id_nodup := append_map_nodup registry.queues.queues_id_nodup fun old inside =>
          Nat.ne_of_lt (registry.queues_id_lt old inside)
        queues_alias_nodup := append_map_nodup registry.queues.queues_alias_nodup free
        aliases_owner := by
          intro entry listed
          rw [List.map_append]
          exact List.mem_append_left _ (registry.queues.aliases_owner entry listed) }
      nextQueue := registry.nextQueue + 1
      nextQueue_pos := Nat.succ_pos _
      queues_id_pos :=
        append_forall_key (p := (0 < ·)) registry.queues_id_pos registry.nextQueue_pos
      queues_id_lt := append_key_lt registry.queues_id_lt rfl }
  else none

/-- `UPDATE queues`; none when the alias is not unique. -/
def updateQueue (row : QueueRow) : Option Registry :=
  if row.id ∈ registry.queues.queues.map (·.id) then
    if free : ∀ old ∈ registry.queues.queues, old.id ≠ row.id → old.aliasName ≠ row.aliasName then
      some { registry with
        queues := { registry.queues with
          queues := overwrite (·.id) row registry.queues.queues
          queues_id_nodup := by
            rw [overwrite_map_key]
            exact registry.queues.queues_id_nodup
          queues_alias_nodup := overwrite_map_nodup registry.queues.queues_id_nodup
            registry.queues.queues_alias_nodup free
          aliases_owner := by
            rw [overwrite_map_key]
            exact registry.queues.aliases_owner }
        queues_id_pos := overwrite_forall_key (p := (0 < ·)) registry.queues_id_pos
        queues_id_lt := overwrite_forall_key (p := (· < registry.nextQueue)) registry.queues_id_lt }
    else none
  else some registry

/-- The step that is inserted at a position; none where the alias is blank. -/
def draftStep (draft : (String × ℤ) × ℕ) : Option QueueStep :=
  if blank : trimSpace draft.1.1 = "" then none
  else some ⟨draft.2, trimSpace draft.1.1, if draft.1.2 ≤ 0 then 1 else draft.1.2, blank⟩

/-- `DELETE FROM queue_steps` and the insertions after it, and whether none of them fails. -/
def replaceSteps (id : QueueId) (drafts : List (String × ℤ)) : Registry × Bool :=
  let steps := drafts.zipIdx.filterMap draftStep
  if id ∈ registry.queues.queues.map (·.id) then
    ({ registry with
      queues := { registry.queues with
        steps := registry.queues.steps.filter (·.1 ≠ id) ++ steps.map fun step => (id, step) } },
      true)
  else (registry, steps.isEmpty)

/-- `Store.SaveQueue`. -/
def saveQueue (draft : QueueDraft) : Registry × Except SaveError QueueId :=
  let row := draft.row
  if row.name = "" ∨ row.aliasName = "" then (registry, .error (.text "name and alias required"))
  else if registry.aliasTaken row.aliasName row.id 0 then
    (registry, .error (.text ("alias " ++ row.aliasName ++ " already used")))
  else
    let written :=
      if row.id = 0 then (registry.insertQueue row).map fun next => (next, registry.nextQueue)
      else (registry.updateQueue row).map fun next => (next, row.id)
    match written with
    | none => (registry, .error .constraint)
    | some (next, id) =>
        let replaced := next.replaceSteps id draft.steps
        (replaced.1, if replaced.2 then .ok id else .error .constraint)

/-- `Store.DeleteQueue`; the steps and aliases of the row go with it. -/
def deleteQueue (id : QueueId) : Registry :=
  { registry with
    queues := {
      queues := registry.queues.queues.filter (·.id ≠ id)
      steps := registry.queues.steps.filter (·.1 ≠ id)
      aliases := registry.queues.aliases.filter (·.2 ≠ id)
      queues_id_nodup := registry.queues.queues_id_nodup.sublist (List.filter_sublist.map _)
      queues_alias_nodup := registry.queues.queues_alias_nodup.sublist (List.filter_sublist.map _)
      aliases_nodup := registry.queues.aliases_nodup.sublist (List.filter_sublist.map _)
      aliases_owner := by
        intro entry listed
        simp only [List.mem_filter, decide_eq_true_eq] at listed
        rcases List.mem_map.mp (registry.queues.aliases_owner entry listed.1) with
          ⟨row, inside, isOwner⟩
        rw [← isOwner]
        apply List.mem_map_of_mem
        simp only [List.mem_filter, decide_eq_true_eq]
        refine ⟨inside, ?_⟩
        rw [isOwner]
        exact listed.2 }
    queues_id_pos := fun row listed => registry.queues_id_pos row (List.mem_of_mem_filter listed)
    queues_id_lt := fun row listed => registry.queues_id_lt row (List.mem_of_mem_filter listed) }

/-- `INSERT INTO queue_aliases`; none when the alias or the queue breaks a key. -/
def insertQueueAlias (name : String) (id : QueueId) : Option Registry :=
  if free : ∀ entry ∈ registry.queues.aliases, entry.1 ≠ name then
    if owner : id ∈ registry.queues.queues.map (·.id) then
      some { registry with
        queues := { registry.queues with
          aliases := registry.queues.aliases ++ [(name, id)]
          aliases_nodup := append_map_nodup registry.queues.aliases_nodup free
          aliases_owner := by
            intro entry listed
            rcases List.mem_append.mp listed with old | new
            · exact registry.queues.aliases_owner entry old
            · rw [List.mem_singleton] at new
              rw [new]
              exact owner } }
    else none
  else none

/-- `Store.AddQueueAlias`. -/
def addQueueAlias (id : QueueId) (name : String) : Registry × Except SaveError Unit :=
  let name := trimSpace name
  if name = "" then (registry, .error (.text "alias required"))
  else if registry.aliasTaken name id 0 then
    (registry, .error (.text ("alias " ++ name ++ " already used")))
  else
    match registry.queues.getQueue id with
    | none => (registry, .error (.text "sql: no rows in result set"))
    | some queue =>
        if queue.aliasName = name then (registry, .ok ())
        else
          match registry.insertQueueAlias name id with
          | none => (registry, .error .constraint)
          | some next => (next, .ok ())

/-- `Store.DeleteQueueAlias`. -/
def deleteQueueAlias (id : QueueId) (name : String) : Registry :=
  { registry with
    queues := { registry.queues with
      aliases := registry.queues.aliases.filter fun entry => !(entry.2 = id && entry.1 = name)
      aliases_nodup := registry.queues.aliases_nodup.sublist (List.filter_sublist.map _)
      aliases_owner := fun entry listed =>
        registry.queues.aliases_owner entry (List.mem_of_mem_filter listed) } }

variable {registry} {next : Registry}

theorem replaceSteps_spec (registry : Registry) (id : QueueId) (drafts : List (String × ℤ)) :
    (registry.replaceSteps id drafts).1.models = registry.models ∧
      (registry.replaceSteps id drafts).1.queues.queues = registry.queues.queues ∧
      (registry.replaceSteps id drafts).1.queues.aliases = registry.queues.aliases := by
  unfold replaceSteps
  simp only
  split
  · exact ⟨rfl, rfl, rfl⟩
  · exact ⟨rfl, rfl, rfl⟩

theorem insertQueue_spec {row : QueueRow} (inserts : registry.insertQueue row = some next) :
    next.models = registry.models ∧ next.queues.aliases = registry.queues.aliases ∧
      ∀ saved ∈ next.queues.queues, saved ∈ registry.queues.queues ∨
        saved = { row with id := registry.nextQueue } := by
  unfold insertQueue at inserts
  split at inserts
  · cases inserts
    refine ⟨rfl, rfl, ?_⟩
    intro saved listed
    rcases List.mem_append.mp listed with old | new
    · exact Or.inl old
    · exact Or.inr (List.mem_singleton.mp new)
  · cases inserts

theorem updateQueue_spec {row : QueueRow} (updates : registry.updateQueue row = some next) :
    next.models = registry.models ∧ next.queues.aliases = registry.queues.aliases ∧
      ∀ saved ∈ next.queues.queues, saved ∈ registry.queues.queues ∨
        (saved = row ∧ row.id ∈ registry.queues.queues.map (·.id)) := by
  unfold updateQueue at updates
  split at updates
  · rename_i present
    split at updates
    · cases updates
      refine ⟨rfl, rfl, ?_⟩
      intro saved listed
      rcases mem_overwrite listed with ⟨rfl, _⟩ | ⟨old, _⟩
      · exact Or.inr ⟨rfl, present⟩
      · exact Or.inl old
    · cases updates
  · cases updates
    exact ⟨rfl, rfl, fun saved listed => Or.inl listed⟩

/-- What `SaveQueue` does to the names: nothing, or one row gets those of the draft. -/
theorem saveQueue_spec (registry : Registry) (draft : QueueDraft) :
    (registry.saveQueue draft).1.models = registry.models ∧
      (registry.saveQueue draft).1.queues.aliases = registry.queues.aliases ∧
      ∀ saved ∈ (registry.saveQueue draft).1.queues.queues, saved ∈ registry.queues.queues ∨
        (saved = { draft.row with id := if draft.id = 0 then registry.nextQueue else draft.id } ∧
          trimSpace draft.name ≠ "" ∧
          registry.aliasTaken draft.row.aliasName draft.id 0 = false ∧
          (draft.id = 0 ∨ draft.id ∈ registry.queues.queues.map (·.id))) := by
  unfold saveQueue
  simp only
  split
  · exact ⟨rfl, rfl, fun saved => Or.inl⟩
  · rename_i notBlank
    have named : trimSpace draft.name ≠ "" := fun blank => notBlank (Or.inl blank)
    split
    · exact ⟨rfl, rfl, fun saved => Or.inl⟩
    · rename_i notTaken
      have free : registry.aliasTaken draft.row.aliasName draft.id 0 = false :=
        Bool.eq_false_of_not_eq_true notTaken
      split
      · exact ⟨rfl, rfl, fun saved => Or.inl⟩
      · rename_i next id written
        rcases replaceSteps_spec next id draft.steps with ⟨models, queues, aliases⟩
        rw [models, queues, aliases]
        split at written
        · rename_i rowIsNew
          have isNew : draft.id = 0 := rowIsNew
          rcases Option.map_eq_some_iff.mp written with ⟨inserted, inserts, same⟩
          cases same
          rcases insertQueue_spec inserts with ⟨models', aliases', rows⟩
          refine ⟨models', aliases', ?_⟩
          intro saved listed
          rcases rows saved listed with old | new
          · exact Or.inl old
          · rw [if_pos isNew]
            exact Or.inr ⟨new, named, free, Or.inl isNew⟩
        · rename_i rowNotNew
          have notNew : draft.id ≠ 0 := rowNotNew
          rcases Option.map_eq_some_iff.mp written with ⟨updated, updates, same⟩
          cases same
          rcases updateQueue_spec updates with ⟨models', aliases', rows⟩
          refine ⟨models', aliases', ?_⟩
          intro saved listed
          rcases rows saved listed with old | ⟨new, present⟩
          · exact Or.inl old
          · rw [if_neg notNew]
            exact Or.inr ⟨new, named, free, Or.inr present⟩

/-- What `AddQueueAlias` does to the names: nothing, or the queue gets the trimmed alias. -/
theorem addQueueAlias_spec (registry : Registry) (id : QueueId) (name : String) :
    (registry.addQueueAlias id name).1.models = registry.models ∧
      (registry.addQueueAlias id name).1.queues.queues = registry.queues.queues ∧
      ∀ entry ∈ (registry.addQueueAlias id name).1.queues.aliases,
        entry ∈ registry.queues.aliases ∨
          (entry = (trimSpace name, id) ∧ registry.aliasTaken (trimSpace name) id 0 = false ∧
            ∃ queue, registry.queues.getQueue id = some queue) := by
  unfold addQueueAlias
  simp only
  split
  · exact ⟨rfl, rfl, fun entry => Or.inl⟩
  · split
    · exact ⟨rfl, rfl, fun entry => Or.inl⟩
    · rename_i notTaken
      split
      · exact ⟨rfl, rfl, fun entry => Or.inl⟩
      · rename_i queue found
        split
        · exact ⟨rfl, rfl, fun entry => Or.inl⟩
        · split
          · exact ⟨rfl, rfl, fun entry => Or.inl⟩
          · rename_i next inserts
            unfold insertQueueAlias at inserts
            split at inserts
            · split at inserts
              · cases inserts
                refine ⟨rfl, rfl, ?_⟩
                intro entry listed
                rcases List.mem_append.mp listed with old | new
                · exact Or.inl old
                · exact Or.inr ⟨List.mem_singleton.mp new, Bool.eq_false_of_not_eq_true notTaken,
                    queue, found⟩
              · cases inserts
            · cases inserts

end Queues

end Registry

end MikroLLM.Store
