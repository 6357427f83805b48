import MikroLLM.Store.Registry

/-!
# Rows that the hub keeps

The models of other hub nodes are rows of the same table as the local ones. A
local row has no `hub_node_id`, and the operations that follow the catalog of the
hub find their rows by this column or by the reserved alias.
-/

namespace MikroLLM.Store

open Domain Go Library

namespace Registry

/-- A model whose fallback is one of these aliases loses it. -/
def clearFallback (aliases : List String) (model : Model) : Model :=
  if model.fallback ∈ aliases then { model with fallback := "" } else model

theorem clearFallback_same (aliases : List String) (model : Model) :
    (clearFallback aliases model).id = model.id ∧
      (clearFallback aliases model).aliasName = model.aliasName ∧
      (clearFallback aliases model).hubNodeID = model.hubNodeID := by
  unfold clearFallback
  split
  · exact ⟨rfl, rfl, rfl⟩
  · exact ⟨rfl, rfl, rfl⟩

section Local

variable (registry : Registry)

/-- The local models, without fallbacks to the others. -/
def localModels : List Model :=
  (registry.models.models.filter (·.hubNodeID = "")).map
    (clearFallback ((registry.models.models.filter (·.hubNodeID ≠ "")).map (·.aliasName)))

theorem of_mem_localModels {model : Model} (listed : model ∈ registry.localModels) :
    ∃ old ∈ registry.models.models, old.hubNodeID = "" ∧ model.id = old.id ∧
      model.aliasName = old.aliasName ∧ model.hubNodeID = old.hubNodeID := by
  rcases List.mem_map.mp listed with ⟨old, inside, rfl⟩
  have isLocal : old.hubNodeID = "" := by simpa using List.of_mem_filter inside
  exact ⟨old, List.mem_of_mem_filter inside, isLocal, clearFallback_same _ old⟩

theorem localModels_ids : (registry.localModels.map (·.id)).Nodup := by
  rw [localModels, List.map_map]
  simp only [Function.comp_def, clearFallback_same]
  exact registry.models.models_id_nodup.sublist (List.filter_sublist.map _)

theorem localModels_names : (registry.localModels.map (·.aliasName)).Nodup := by
  rw [localModels, List.map_map]
  simp only [Function.comp_def, clearFallback_same]
  exact registry.models.models_alias_nodup.sublist (List.filter_sublist.map _)

theorem localModels_pos : ∀ model ∈ registry.localModels, 0 < model.id := by
  intro model listed
  rcases registry.of_mem_localModels listed with ⟨old, inside, _, sameId, _⟩
  rw [sameId]
  exact registry.models_id_pos old inside

theorem localModels_lt : ∀ model ∈ registry.localModels, model.id < registry.nextModel := by
  intro model listed
  rcases registry.of_mem_localModels listed with ⟨old, inside, _, sameId, _⟩
  rw [sameId]
  exact registry.models_id_lt old inside

/-- `Store.DeleteHubPeers`. -/
def deleteHubPeers : Registry :=
  { registry with
    models := registry.models.setModels registry.localModels registry.localModels_ids
      registry.localModels_names
    models_id_pos := registry.localModels_pos
    models_id_lt := registry.localModels_lt }

end Local

/-- `Store.DeleteHubAuto`. -/
def deleteHubAuto (registry : Registry) : Registry :=
  match registry.models.getModelByAlias hubAutoAlias with
  | none => registry
  | some model => if model.hubNodeID = "" then registry else registry.deleteModel model.id

end Registry

/-- The operations that follow the hub. -/
inductive HubAction
  | upsertHubAuto (nodeID nodeName upstream : String) (maxContext : ℤ) (media : List String)
  | deleteHubAuto
  | deleteHubPeers
  | connectHubModel (name nodeID nodeName : String) (maxContext : ℤ) (media : List String)

namespace HubAction

def apply (text : TextLibrary) (registry : Registry) : HubAction → Registry
  | upsertHubAuto nodeID nodeName upstream maxContext media =>
      (registry.upsertHubAuto text nodeID nodeName upstream maxContext media).1
  | deleteHubAuto => registry.deleteHubAuto
  | deleteHubPeers => registry.deleteHubPeers
  | connectHubModel name nodeID nodeName maxContext media =>
      (registry.connectHubModel text name nodeID nodeName maxContext media).1

/-- The aliases of the rows that an operation deletes. -/
def deletes (registry : Registry) : HubAction → List String
  | deleteHubAuto => (registry.models.models.filter fun model =>
      model.hubNodeID ≠ "" && model.aliasName = hubAutoAlias).map (·.aliasName)
  | deleteHubPeers => (registry.models.models.filter (·.hubNodeID ≠ "")).map (·.aliasName)
  | _ => []

/-- The store after these operations, and the aliases that they deleted. -/
def run (text : TextLibrary) (registry : Registry) : List HubAction → Registry × List String
  | [] => (registry, [])
  | action :: rest =>
      let last := run text (action.apply text registry) rest
      (last.1, action.deletes registry ++ last.2)

/-- A queue answers to the reserved alias, so that no model can be saved under it. -/
def autoIsQueue (registry : Registry) : Bool :=
  (registry.queues.queues.any (·.aliasName = hubAutoAlias)) ||
    registry.queues.aliases.any (·.1 = hubAutoAlias)

/-- A local model has the reserved alias. -/
def autoIsLocal (registry : Registry) : Bool :=
  registry.models.models.any fun model => model.hubNodeID = "" && model.aliasName = hubAutoAlias

/-- An `UpsertHubAuto` that `SaveModel` does not refuse finds no local model with the alias. -/
def spares (registry : Registry) : HubAction → Bool
  | upsertHubAuto nodeID _ upstream _ _ =>
      trimSpace nodeID = "" || trimSpace upstream = "" || autoIsQueue registry ||
        !autoIsLocal registry
  | _ => true

end HubAction

/-- A row as it was, or without a fallback that was deleted. -/
def Kept (deleted : List String) (model kept : Model) : Prop :=
  kept = model ∨ (model.fallback ∈ deleted ∧ kept = { model with fallback := "" })

/-- Every local model is still there. -/
def LocalKept (deleted : List String) (registry later : Registry) : Prop :=
  ∀ model ∈ registry.models.models, model.hubNodeID = "" →
    ∃ kept ∈ later.models.models, Kept deleted model kept

/-- No local model has this id. -/
def Lost (registry : Registry) (id : ModelId) : Prop :=
  ∀ model ∈ registry.models.models, model.id = id → model.hubNodeID ≠ ""

section Saving

variable {text : TextLibrary} {registry : Registry} {model old row : Model}

namespace Registry

theorem model_ext (inside : model ∈ registry.models.models) (alsoInside : old ∈ registry.models.models)
    (sameId : model.id = old.id) : model = old :=
  List.inj_on_of_nodup_map registry.models.models_id_nodup inside alsoInside sameId

theorem model_ext_alias (inside : model ∈ registry.models.models)
    (alsoInside : old ∈ registry.models.models) (sameAlias : model.aliasName = old.aliasName) :
    model = old :=
  List.inj_on_of_nodup_map registry.models.models_alias_nodup inside alsoInside sameAlias

theorem mem_bindBackends {id : ModelId} {ids : List BackendId} (inside : old ∈ registry.models.models)
    (other : old.id ≠ id) : old ∈ (registry.bindBackends id ids).1.models.models := by
  refine List.mem_map.mpr ⟨old, inside, ?_⟩
  exact if_neg other

theorem of_mem_bindBackends {id : ModelId} {ids : List BackendId}
    (listed : row ∈ (registry.bindBackends id ids).1.models.models) :
    row ∈ registry.models.models ∨
      ∃ before ∈ registry.models.models, before.id = id ∧ row.id = id ∧
        row.hubNodeID = before.hubNodeID := by
  rcases List.mem_map.mp listed with ⟨before, inside, rfl⟩
  by_cases isRow : before.id = id
  · rw [if_pos isRow]
    exact Or.inr ⟨before, inside, isRow, isRow, rfl⟩
  · rw [if_neg isRow]
    exact Or.inl inside

/-- A save leaves the rows with another id as they are. -/
theorem mem_saveModel (inside : old ∈ registry.models.models) (other : old.id ≠ model.id) :
    old ∈ (registry.saveModel text model).1.models.models := by
  unfold saveModel
  simp only
  split
  · exact inside
  · split
    · exact inside
    · rename_i next id written
      split at written
      · rcases Option.map_eq_some_iff.mp written with ⟨inserted, inserts, same⟩
        cases same
        apply mem_bindBackends _ (Nat.ne_of_lt (registry.models_id_lt old inside))
        unfold insertModel at inserts
        split at inserts
        · cases inserts
          exact List.mem_append_left _ inside
        · cases inserts
      · rcases Option.map_eq_some_iff.mp written with ⟨updated, updates, same⟩
        cases same
        apply mem_bindBackends _ other
        unfold updateModel at updates
        split at updates
        · split at updates
          · cases updates
            exact List.mem_map.mpr ⟨old, inside, if_neg other⟩
          · cases updates
        · cases updates
          exact inside

/-- A row of a save is an old one, or it has the node of the model that is saved. -/
theorem of_mem_saveModel (listed : row ∈ (registry.saveModel text model).1.models.models) :
    row ∈ registry.models.models ∨ row.hubNodeID = model.hubNodeID := by
  unfold saveModel at listed
  simp only at listed
  split at listed
  · exact Or.inl listed
  · split at listed
    · exact Or.inl listed
    · rename_i next id written
      split at written
      · rcases Option.map_eq_some_iff.mp written with ⟨inserted, inserts, same⟩
        cases same
        unfold insertModel at inserts
        split at inserts
        · cases inserts
          rcases of_mem_bindBackends listed with isRow | ⟨before, isBefore, isId, _, sameNode⟩
          · rcases List.mem_append.mp isRow with isOld | isNew
            · exact Or.inl isOld
            · rw [List.mem_singleton.mp isNew]
              exact Or.inr rfl
          · rcases List.mem_append.mp isBefore with isOld | isNew
            · exact absurd isId (Nat.ne_of_lt (registry.models_id_lt before isOld))
            · rw [List.mem_singleton.mp isNew] at sameNode
              exact Or.inr sameNode
        · cases inserts
      · rcases Option.map_eq_some_iff.mp written with ⟨updated, updates, same⟩
        cases same
        unfold updateModel at updates
        split at updates
        · split at updates
          · cases updates
            rcases of_mem_bindBackends listed with isRow | ⟨before, isBefore, isId, _, sameNode⟩
            · rcases mem_overwrite isRow with ⟨rfl, _⟩ | ⟨isOld, _⟩
              · exact Or.inr rfl
              · exact Or.inl isOld
            · rcases mem_overwrite isBefore with ⟨rfl, _⟩ | ⟨_, other⟩
              · exact Or.inr sameNode
              · exact absurd isId other
          · cases updates
        · rename_i missing
          cases updates
          rcases of_mem_bindBackends listed with isRow | ⟨before, isBefore, isId, _⟩
          · exact Or.inl isRow
          · exact absurd (List.mem_map.mpr ⟨before, isBefore, isId⟩) missing

/-- A save that nothing refuses overwrites the row with the id. -/
theorem saveModel_overwrites (present : model.id ∈ registry.models.models.map (·.id))
    (positive : model.id ≠ 0) (free : registry.aliasTaken model.aliasName 0 model.id = false)
    (unique : ∀ other ∈ registry.models.models, other.id ≠ model.id →
      other.aliasName ≠ model.aliasName)
    (listed : row ∈ (registry.saveModel text model).1.models.models) (sameId : row.id = model.id) :
    row.hubNodeID = model.hubNodeID := by
  have isFree : ¬registry.aliasTaken (normalizeModel text model).aliasName 0
      (normalizeModel text model).id = true := by
    simp only [normalizeModel, free]
    exact Bool.false_ne_true
  unfold saveModel at listed
  simp only [if_neg isFree] at listed
  have updates : registry.updateModel (normalizeModel text model) = some _ :=
    (if_pos present).trans (dif_pos unique)
  have notNew : ¬(normalizeModel text model).id = 0 := positive
  simp only [if_neg notNew, updates, Option.map_some] at listed
  rcases of_mem_bindBackends listed with isRow | ⟨before, isBefore, isId, _, sameNode⟩
  · rcases mem_overwrite isRow with ⟨rfl, _⟩ | ⟨_, other⟩
    · rfl
    · exact absurd sameId other
  · rcases mem_overwrite isBefore with ⟨rfl, _⟩ | ⟨_, other⟩
    · exact sameNode
    · exact absurd isId other

end Registry

end Saving

section Steps

variable {text : TextLibrary} {registry next : Registry} {model row : Model}

theorem Kept.trans {first second : List String} {middle last : Model}
    (kept : Kept first model middle) (stays : Kept second middle last) :
    Kept (first ++ second) model last := by
  rcases kept with rfl | ⟨deleted, rfl⟩
  · rcases stays with rfl | ⟨later, rfl⟩
    · exact Or.inl rfl
    · exact Or.inr ⟨List.mem_append_right _ later, rfl⟩
  · refine Or.inr ⟨List.mem_append_left _ deleted, ?_⟩
    rcases stays with rfl | ⟨_, rfl⟩ <;> rfl

theorem Kept.id_eq {deleted : List String} {kept : Model} (stays : Kept deleted model kept) :
    kept.id = model.id ∧ kept.hubNodeID = model.hubNodeID ∧ kept.aliasName = model.aliasName := by
  rcases stays with rfl | ⟨_, rfl⟩
  · exact ⟨rfl, rfl, rfl⟩
  · exact ⟨rfl, rfl, rfl⟩

/-- The model that `ConnectHubModel` saves is new, or a row of the node. -/
theorem hubModel_spec {name nodeID nodeName : String} {maxContext : ℤ} {media : List String}
    (makes : registry.hubModel text name nodeID nodeName maxContext media = .ok model) :
    model.hubNodeID ≠ "" ∧ (model.id = 0 ∨
      ∃ old ∈ registry.models.models, old.id = model.id ∧ old.hubNodeID ≠ "") := by
  unfold Registry.hubModel at makes
  simp only at makes
  split at makes
  · exact nomatch makes
  · rename_i notBlank
    have hasNode : trimSpace nodeID ≠ "" := fun blank => notBlank (Or.inr blank)
    split at makes
    · cases makes
      exact ⟨hasNode, Or.inl rfl⟩
    · rename_i old found
      split at makes
      · rename_i sameNode
        cases makes
        have oldNode : old.hubNodeID ≠ "" := by rwa [sameNode]
        exact ⟨oldNode, Or.inr ⟨old, List.mem_of_find?_eq_some found, rfl, oldNode⟩⟩
      · cases makes
        exact ⟨hasNode, Or.inl rfl⟩

/-- The model that `UpsertHubAuto` saves: a new one, or the row with the reserved alias. -/
theorem hubAutoModel_spec {nodeID nodeName upstream : String} {maxContext : ℤ}
    {media : List String}
    (makes : registry.hubAutoModel text nodeID nodeName upstream maxContext media = .ok model) :
    model.hubNodeID ≠ "" ∧ model.aliasName = hubAutoAlias ∧ trimSpace nodeID ≠ "" ∧
      trimSpace upstream ≠ "" ∧ model.id =
        ((registry.models.getModelByAlias hubAutoAlias).map (·.id)).getD 0 := by
  unfold Registry.hubAutoModel at makes
  simp only at makes
  split at makes
  · exact nomatch makes
  · rename_i notBlank
    rw [not_or] at notBlank
    cases makes
    refine ⟨notBlank.1, rfl, notBlank.1, notBlank.2, ?_⟩
    cases registry.models.getModelByAlias hubAutoAlias <;> rfl

theorem mem_saveMade {made : Except SaveError Model} (inside : row ∈ registry.models.models)
    (other : ∀ model, made = .ok model → row.id ≠ model.id) :
    row ∈ (registry.saveMade text made).1.models.models := by
  cases made with
  | error refusal => exact inside
  | ok model => exact Registry.mem_saveModel inside (other model rfl)

theorem of_mem_saveMade {made : Except SaveError Model}
    (hasNode : ∀ model, made = .ok model → model.hubNodeID ≠ "")
    (listed : row ∈ (registry.saveMade text made).1.models.models) (isLocal : row.hubNodeID = "") :
    row ∈ registry.models.models := by
  cases made with
  | error refusal => exact listed
  | ok model =>
      rcases Registry.of_mem_saveModel listed with isOld | sameNode
      · exact isOld
      · exact absurd (sameNode.symm.trans isLocal) (hasNode model rfl)

theorem saveMade_queues (made : Except SaveError Model) :
    (registry.saveMade text made).1.queues = registry.queues := by
  cases made with
  | error refusal => rfl
  | ok model => exact (registry.saveModel_spec text model).1

/-- A row that is deleted is not one of the local rows. -/
theorem mem_deleteModel {id : ModelId} (inside : row ∈ registry.models.models) (other : row.id ≠ id)
    {deleted : List String}
    (isDeleted : ∀ gone ∈ registry.models.models, gone.id = id → gone.aliasName ∈ deleted) :
    ∃ kept ∈ (registry.deleteModel id).models.models, Kept deleted row kept := by
  refine ⟨_, List.mem_map_of_mem (List.mem_filter.mpr ⟨inside, by simpa using other⟩), ?_⟩
  split
  · rename_i cleared
    refine Or.inr ⟨?_, rfl⟩
    cases found : registry.models.models.find? (·.id = id) with
    | none => simp [found] at cleared
    | some gone =>
        have isGone := List.mem_of_find?_eq_some found
        have sameId : gone.id = id := by simpa using List.find?_some found
        simp only [found, Option.map_some, Option.getD_some] at cleared
        rw [cleared.2]
        exact isDeleted gone isGone sameId
  · exact Or.inl rfl

theorem of_mem_deleteModel {id : ModelId} (listed : row ∈ (registry.deleteModel id).models.models) :
    ∃ old ∈ registry.models.models, old.id = row.id ∧ old.hubNodeID = row.hubNodeID ∧
      old.aliasName = row.aliasName := by
  rcases List.mem_map.mp listed with ⟨old, inside, rfl⟩
  refine ⟨old, List.mem_of_mem_filter inside, ?_⟩
  split <;> exact ⟨rfl, rfl, rfl⟩

namespace HubAction

theorem apply_queues (action : HubAction) : (action.apply text registry).queues = registry.queues := by
  cases action with
  | upsertHubAuto nodeID nodeName upstream maxContext media => exact saveMade_queues _
  | connectHubModel name nodeID nodeName maxContext media => exact saveMade_queues _
  | deleteHubPeers => rfl
  | deleteHubAuto =>
      simp only [apply, Registry.deleteHubAuto]
      split
      · rfl
      · split <;> rfl

/-- No operation makes a local row. -/
theorem of_mem_apply {action : HubAction} (listed : row ∈ (action.apply text registry).models.models)
    (isLocal : row.hubNodeID = "") :
    ∃ old ∈ registry.models.models, old.id = row.id ∧ old.hubNodeID = "" ∧
      old.aliasName = row.aliasName := by
  cases action with
  | upsertHubAuto nodeID nodeName upstream maxContext media =>
      refine ⟨row, ?_, rfl, isLocal, rfl⟩
      exact of_mem_saveMade (fun model makes => (hubAutoModel_spec makes).1) listed isLocal
  | connectHubModel name nodeID nodeName maxContext media =>
      refine ⟨row, ?_, rfl, isLocal, rfl⟩
      exact of_mem_saveMade (fun model makes => (hubModel_spec makes).1) listed isLocal
  | deleteHubPeers =>
      rcases Registry.of_mem_localModels registry listed with
        ⟨old, inside, oldLocal, sameId, sameName, _⟩
      exact ⟨old, inside, sameId.symm, oldLocal, sameName.symm⟩
  | deleteHubAuto =>
      simp only [apply, Registry.deleteHubAuto] at listed
      split at listed
      · exact ⟨row, listed, rfl, isLocal, rfl⟩
      · split at listed
        · exact ⟨row, listed, rfl, isLocal, rfl⟩
        · rcases of_mem_deleteModel listed with ⟨old, inside, sameId, sameNode, sameAlias⟩
          exact ⟨old, inside, sameId, sameNode.trans isLocal, sameAlias⟩

theorem aliasTaken_of_autoIsQueue (isQueue : autoIsQueue registry = true) (id : ModelId) :
    registry.aliasTaken hubAutoAlias 0 id = true := by
  have trimmed : trimSpace hubAutoAlias = hubAutoAlias := by decide
  simp only [autoIsQueue, Bool.or_eq_true, List.any_eq_true, decide_eq_true_eq] at isQueue
  simp only [Registry.aliasTaken, trimmed, Bool.or_eq_true, List.any_eq_true, Bool.and_eq_true,
    decide_eq_true_eq]
  rcases isQueue with ⟨queue, isRow, named⟩ | ⟨entry, listed, named⟩
  · exact Or.inl (Or.inr ⟨queue, isRow, named, (registry.queues_id_pos queue isRow).ne'⟩)
  · rcases List.mem_map.mp (registry.queues.aliases_owner entry listed) with ⟨queue, isRow, isOwner⟩
    refine Or.inr ⟨entry, listed, named, ?_⟩
    rw [← isOwner]
    exact (registry.queues_id_pos queue isRow).ne'

/-- Only the row with the reserved alias has it. -/
theorem aliasTaken_of_holder {id : ModelId} (notQueue : autoIsQueue registry = false)
    (inside : row ∈ registry.models.models) (isAuto : row.aliasName = hubAutoAlias)
    (sameId : row.id = id) : registry.aliasTaken hubAutoAlias 0 id = false := by
  have trimmed : trimSpace hubAutoAlias = hubAutoAlias := by decide
  have named : hubAutoAlias ≠ "" := by decide
  simp only [autoIsQueue, Bool.or_eq_false_iff, List.any_eq_false, decide_eq_true_eq] at notQueue
  simp only [Registry.aliasTaken, trimmed, Bool.or_eq_false_iff, List.any_eq_false,
    Bool.and_eq_true, decide_eq_true_eq, decide_eq_false_iff_not, not_and, not_not]
  refine ⟨⟨⟨named, ?_⟩, ?_⟩, ?_⟩
  · intro other isOther otherAuto
    rw [Registry.model_ext_alias isOther inside (otherAuto.trans isAuto.symm), sameId]
  · intro queue isRow named
    exact absurd named (notQueue.1 queue isRow)
  · intro entry listed named
    exact absurd named (notQueue.2 entry listed)

theorem upsertHubAuto_refused (isQueue : autoIsQueue registry = true) {nodeID nodeName upstream : String}
    {maxContext : ℤ} {media : List String} :
    (registry.saveMade text (registry.hubAutoModel text nodeID nodeName upstream maxContext
      media)).1 = registry := by
  cases makes : registry.hubAutoModel text nodeID nodeName upstream maxContext media with
  | error refusal => rfl
  | ok model =>
      have isAuto := (hubAutoModel_spec makes).2.1
      have taken := aliasTaken_of_autoIsQueue isQueue model.id
      rw [← isAuto] at taken
      simp only [Registry.saveMade]
      unfold Registry.saveModel
      simp only [Registry.normalizeModel, taken, if_true]

/-- Every local row with another alias stays, and the operation that finds the reserved alias on a
local row is `UpsertHubAuto`. -/
theorem apply_kept (text : TextLibrary) {action : HubAction} (inside : row ∈ registry.models.models)
    (isLocal : row.hubNodeID = "") (spared : action.spares registry = true) :
    ∃ kept ∈ (action.apply text registry).models.models, Kept (action.deletes registry) row kept := by
  cases action with
  | upsertHubAuto nodeID nodeName upstream maxContext media =>
      refine ⟨row, ?_, Or.inl rfl⟩
      by_cases isQueue : autoIsQueue registry = true
      · rwa [apply, Registry.upsertHubAuto, upsertHubAuto_refused isQueue]
      · apply mem_saveMade inside
        intro model makes sameId
        rcases hubAutoModel_spec makes with ⟨_, _, hasNode, hasUpstream, isId⟩
        cases found : registry.models.getModelByAlias hubAutoAlias with
        | none =>
            rw [found] at isId
            exact (registry.models_id_pos row inside).ne' (sameId.trans isId)
        | some holder =>
            rw [found] at isId
            have isHolder := Registry.model_ext inside (List.mem_of_find?_eq_some found)
              (sameId.trans isId)
            have sameAlias := ModelTables.getModelByAlias_aliasName found
            rw [← isHolder] at sameAlias
            have autoLocal : autoIsLocal registry = true := by
              rw [autoIsLocal, List.any_eq_true]
              exact ⟨row, inside, by simp [isLocal, sameAlias]⟩
            simp [spares, hasNode, hasUpstream, Bool.eq_false_of_not_eq_true isQueue, autoLocal] at spared
  | connectHubModel name nodeID nodeName maxContext media =>
      refine ⟨row, mem_saveMade inside ?_, Or.inl rfl⟩
      intro model makes sameId
      rcases (hubModel_spec makes).2 with isNew | ⟨old, isOld, oldId, hasNode⟩
      · exact (registry.models_id_pos row inside).ne' (sameId.trans isNew)
      · rw [Registry.model_ext isOld inside (oldId.trans sameId.symm)] at hasNode
        exact hasNode isLocal
  | deleteHubPeers =>
      refine ⟨_, List.mem_map_of_mem (List.mem_filter.mpr ⟨inside, by simpa using isLocal⟩), ?_⟩
      unfold Registry.clearFallback
      split
      · rename_i cleared
        exact Or.inr ⟨cleared, rfl⟩
      · exact Or.inl rfl
  | deleteHubAuto =>
      simp only [apply, Registry.deleteHubAuto]
      split
      · exact ⟨row, inside, Or.inl rfl⟩
      · rename_i auto found
        split
        · exact ⟨row, inside, Or.inl rfl⟩
        · rename_i hasNode
          have isAuto := List.mem_of_find?_eq_some found
          apply mem_deleteModel inside
          · intro sameId
            rw [← Registry.model_ext inside isAuto sameId] at hasNode
            exact hasNode isLocal
          · intro gone isGone sameId
            rw [Registry.model_ext isGone isAuto sameId]
            apply List.mem_map_of_mem
            have sameAlias := ModelTables.getModelByAlias_aliasName found
            simpa [hasNode, sameAlias] using isAuto

theorem autoIsLocal_of_not_spared {action : HubAction} (notSpared : action.spares registry = false) :
    ∃ row ∈ registry.models.models, row.hubNodeID = "" ∧ row.aliasName = hubAutoAlias := by
  cases action with
  | upsertHubAuto nodeID nodeName upstream maxContext media =>
      simp only [spares, Bool.or_eq_false_iff, Bool.not_eq_false'] at notSpared
      simpa [autoIsLocal] using notSpared.2
  | connectHubModel name nodeID nodeName maxContext media => exact nomatch notSpared
  | deleteHubPeers => exact nomatch notSpared
  | deleteHubAuto => exact nomatch notSpared

/-- The local row is overwritten. -/
theorem lost_of_not_spared {action : HubAction} (inside : row ∈ registry.models.models)
    (isAuto : row.aliasName = hubAutoAlias)
    (notSpared : action.spares registry = false) : Lost (action.apply text registry) row.id := by
  cases action with
  | upsertHubAuto nodeID nodeName upstream maxContext media =>
      simp only [spares, Bool.or_eq_false_iff, decide_eq_false_iff_not] at notSpared
      rcases notSpared with ⟨⟨⟨hasNode, hasUpstream⟩, notQueue⟩, _⟩
      cases makes : registry.hubAutoModel text nodeID nodeName upstream maxContext media with
      | error refusal =>
          unfold Registry.hubAutoModel at makes
          simp only [hasNode, hasUpstream, or_self, if_false] at makes
          exact nomatch makes
      | ok model =>
          rcases hubAutoModel_spec makes with ⟨modelNode, modelAuto, _, _, isId⟩
          have sameId : row.id = model.id := by
            cases found : registry.models.getModelByAlias hubAutoAlias with
            | none => simpa [isAuto] using List.find?_eq_none.mp found row inside
            | some holder =>
                rw [isId, found]
                have holderAlias := ModelTables.getModelByAlias_aliasName found
                rw [Registry.model_ext_alias inside (List.mem_of_find?_eq_some found)
                  (isAuto.trans holderAlias.symm)]
                rfl
          have unique : ∀ other ∈ registry.models.models, other.id ≠ model.id →
              other.aliasName ≠ model.aliasName := by
            intro other isOther differs sameAlias
            apply differs
            rw [Registry.model_ext_alias isOther inside
              (sameAlias.trans (modelAuto.trans isAuto.symm)), sameId]
          have free : registry.aliasTaken model.aliasName 0 model.id = false := by
            rw [modelAuto]
            exact aliasTaken_of_holder notQueue inside isAuto sameId
          intro saved listed savedId
          have sameNode := Registry.saveModel_overwrites (List.mem_map.mpr ⟨row, inside, sameId⟩)
            (sameId ▸ (registry.models_id_pos row inside).ne') free unique
            (by simpa [apply, Registry.upsertHubAuto, makes, Registry.saveMade] using listed)
            (savedId.trans sameId)
          rwa [sameNode]
  | connectHubModel name nodeID nodeName maxContext media => exact nomatch notSpared
  | deleteHubPeers => exact nomatch notSpared
  | deleteHubAuto => exact nomatch notSpared

theorem Lost.apply {action : HubAction} {id : ModelId} (lost : Lost registry id) :
    Lost (action.apply text registry) id := by
  intro saved listed sameId isLocal
  rcases of_mem_apply listed isLocal with ⟨old, inside, oldId, oldLocal, _⟩
  exact lost old inside (oldId.trans sameId) oldLocal

theorem Lost.run {id : ModelId} (lost : Lost registry id) (actions : List HubAction) :
    Lost (run text registry actions).1 id := by
  induction actions generalizing registry with
  | nil => exact lost
  | cons action rest ih => exact ih (Lost.apply lost)

theorem autoIsQueue_apply (action : HubAction) :
    autoIsQueue (action.apply text registry) = autoIsQueue registry := by
  simp only [autoIsQueue, apply_queues]

/-- An operation that spares the local rows at first does so later on. -/
theorem spares_apply {action later : HubAction} (spared : later.spares registry = true) :
    later.spares (action.apply text registry) = true := by
  cases later with
  | upsertHubAuto nodeID nodeName upstream maxContext media =>
      simp only [spares, autoIsQueue_apply] at spared ⊢
      by_cases autoLocal : autoIsLocal (action.apply text registry) = true
      · have wasLocal : autoIsLocal registry = true := by
          simp only [autoIsLocal, List.any_eq_true, Bool.and_eq_true, decide_eq_true_eq] at autoLocal ⊢
          rcases autoLocal with ⟨saved, listed, isLocal, isAuto⟩
          rcases of_mem_apply listed isLocal with ⟨old, inside, _, oldLocal, oldAlias⟩
          exact ⟨old, inside, oldLocal, oldAlias.trans isAuto⟩
        simpa [wasLocal, autoLocal] using spared
      · simp [autoLocal]
  | connectHubModel name nodeID nodeName maxContext media => rfl
  | deleteHubPeers => rfl
  | deleteHubAuto => rfl

theorem not_spares_apply {action later : HubAction} (notSpared : later.spares registry = false)
    (autoLocal : autoIsLocal (action.apply text registry) = true) :
    later.spares (action.apply text registry) = false := by
  cases later with
  | upsertHubAuto nodeID nodeName upstream maxContext media =>
      simp only [spares, autoIsQueue_apply, Bool.or_eq_false_iff] at notSpared ⊢
      refine ⟨notSpared.1, ?_⟩
      rw [autoLocal]
      rfl
  | connectHubModel name nodeID nodeName maxContext media => exact nomatch notSpared
  | deleteHubPeers => exact nomatch notSpared
  | deleteHubAuto => exact nomatch notSpared

theorem localKept_run {actions : List HubAction}
    (spared : ∀ action ∈ actions, action.spares registry = true) :
    LocalKept (run text registry actions).2 registry (run text registry actions).1 := by
  induction actions generalizing registry with
  | nil => exact fun model inside _ => ⟨model, inside, Or.inl rfl⟩
  | cons action rest ih =>
      rw [List.forall_mem_cons] at spared
      intro model inside isLocal
      rcases apply_kept text inside isLocal spared.1 with ⟨middle, isMiddle, kept⟩
      have later : LocalKept _ (action.apply text registry) _ := ih fun other listed =>
        spares_apply (spared.2 other listed)
      rcases later middle isMiddle (kept.id_eq.2.1.trans isLocal) with ⟨last, isLast, stays⟩
      exact ⟨last, isLast, kept.trans stays⟩

theorem lost_run {actions : List HubAction} {action : HubAction} (listed : action ∈ actions)
    (notSpared : action.spares registry = false) (inside : row ∈ registry.models.models)
    (isLocal : row.hubNodeID = "") (isAuto : row.aliasName = hubAutoAlias) :
    Lost (run text registry actions).1 row.id := by
  induction actions generalizing registry row with
  | nil => simp at listed
  | cons first rest ih =>
      by_cases firstSpared : first.spares registry = true
      · rcases List.mem_cons.mp listed with rfl | later
        · rw [firstSpared] at notSpared
          exact nomatch notSpared
        · rcases apply_kept text inside isLocal firstSpared with ⟨kept, isKept, stays⟩
          rcases stays.id_eq with ⟨sameId, sameNode, sameAlias⟩
          rw [← sameId]
          apply ih later _ isKept (sameNode.trans isLocal) (sameAlias.trans isAuto)
          apply not_spares_apply notSpared
          simp only [autoIsLocal, List.any_eq_true, Bool.and_eq_true, decide_eq_true_eq]
          exact ⟨kept, isKept, sameNode.trans isLocal, sameAlias.trans isAuto⟩
      · exact Lost.run (lost_of_not_spared inside isAuto
          (Bool.eq_false_of_not_eq_true firstSpared)) rest

end HubAction

/-- The local models stay as they are, exactly when no `UpsertHubAuto` finds one under the reserved
alias. -/
theorem local_kept_iff (text : TextLibrary) (registry : Registry) (actions : List HubAction) :
    LocalKept (HubAction.run text registry actions).2 registry
        (HubAction.run text registry actions).1 ↔
      ∀ action ∈ actions, action.spares registry = true := by
  constructor
  · intro kept action listed
    by_contra notSpared
    rw [Bool.not_eq_true] at notSpared
    rcases HubAction.autoIsLocal_of_not_spared notSpared with ⟨row, inside, isLocal, isAuto⟩
    rcases kept row inside isLocal with ⟨last, isLast, stays⟩
    rcases stays.id_eq with ⟨sameId, sameNode, _⟩
    exact HubAction.lost_run listed notSpared inside isLocal isAuto last isLast sameId
      (sameNode.trans isLocal)
  · exact HubAction.localKept_run

end Steps

section Trials

/-- A local model that was connected under the name `auto`. -/
def localAuto : Model where
  id := 0
  aliasName := "auto"
  upstreamName := "auto"
  lbPolicy := "least_conn"
  enabled := true
  backendIds := [1]
  maxContext := 4096
  fallback := ""
  promptCache := "inherit"
  params := ""
  media := []
  hubShare := false
  hubNodeID := ""
  hubNodeName := ""

def localAutoStore : Registry :=
  ((Registry.empty [⟨1, "ollama", "http://localhost:11434", .ollama, "", true⟩] (by decide)
    (by decide)).saveModel asciiText localAuto).1

/-- The catalog of the hub has a default model, and then it has none. -/
def followHub : List HubAction :=
  [.upsertHubAuto "n2" "gpu" "qwen" 8192 [], .deleteHubAuto]

theorem not_local_kept :
    ¬∀ (text : TextLibrary) (registry : Registry) (actions : List HubAction),
      LocalKept (HubAction.run text registry actions).2 registry
        (HubAction.run text registry actions).1 := by
  intro claim
  have hasLocal : (localAutoStore.models.models.any (·.hubNodeID = "")) = true := by
    decide
  rcases List.any_eq_true.mp hasLocal with ⟨row, inside, isLocal⟩
  rcases claim asciiText localAutoStore followHub row inside (by simpa using isLocal) with
    ⟨kept, isKept, _⟩
  have noModel : (HubAction.run asciiText localAutoStore followHub).1.models.models = [] := by
    decide
  rw [noModel] at isKept
  exact nomatch isKept

end Trials

end MikroLLM.Store
