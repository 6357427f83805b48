import MikroLLM.Proxy.Selection
import MikroLLM.Store.Connecting

/-!
# A model that was connected

`ConnectOllamaModel` is meant to route a name to local backends. An alias that was there
before keeps its hub node, and `pick` looks at the node before it looks at the backends.
-/

namespace MikroLLM.Proxy

open Domain Go Library Store

/-- `pick` answers with one of these backends. -/
def ServedBy (snapshot : Snapshot) (name : String) (ids : List BackendId) : Prop :=
  ∃ backend upstream, pick snapshot name = .ok (backend, upstream) ∧
    backend ∈ snapshot.models.backends ∧ backend.id ∈ ids

/-- Backends that exist, that are enabled and healthy. -/
def Usable (snapshot : Snapshot) (ids : List BackendId) : Prop :=
  ∀ id ∈ ids, ∃ backend ∈ snapshot.models.backends,
    backend.id = id ∧ backend.enabled = true ∧ snapshot.healthy id = true

/-- The same moment with other tables. -/
def Snapshot.withModels (snapshot : Snapshot) (tables : ModelTables) : Snapshot :=
  { snapshot with models := tables }

section Saving

variable {text : TextLibrary} {registry next : Registry} {model : Model} {id : ModelId}
  {name policy : String} {ids : List BackendId} {maxContext : ℤ}

/-- A save finds under every other alias what was there before. -/
theorem getModelByAlias_saveModel (saved : registry.saveModel text model = (next, .ok id))
    (renames : ∀ row ∈ registry.models.models, row.id = model.id → row.aliasName = model.aliasName)
    (other : name ≠ model.aliasName) :
    next.models.getModelByAlias name = registry.models.getModelByAlias name := by
  have isNext : (registry.saveModel text model).1 = next := congrArg Prod.fst saved
  cases found : registry.models.getModelByAlias name with
  | some row =>
      have inside := List.mem_of_find?_eq_some found
      have isName := ModelTables.getModelByAlias_aliasName found
      have otherId : row.id ≠ model.id := by
        intro sameId
        exact other (isName.symm.trans (renames row inside sameId))
      have kept : row ∈ next.models.models := by
        rw [← isNext]
        exact Registry.mem_saveModel inside otherId
      rw [← isName]
      exact Registry.getModelByAlias_of_mem kept
  | none =>
      apply List.find?_eq_none.mpr
      intro row listed isName
      rw [decide_eq_true_eq] at isName
      rcases (Registry.saveModel_spec text registry model).2 with ⟨_, rows⟩
      rw [isNext] at rows
      rcases rows row listed with ⟨old, inside, _, sameAlias⟩ | ⟨_, isModel, _⟩
      · have missing := List.find?_eq_none.mp found old inside
        exact missing (decide_eq_true (sameAlias.trans isName))
      · exact other (isName.symm.trans isModel)

/-- What `ConnectOllamaModel` saves: the backends of the call, and the node of the row that has
the alias. -/
structure LocalRow (registry : Registry) (name : String) (ids : List BackendId) (model : Model) :
    Prop where
  named : trimSpace name ≠ ""
  given : ids ≠ []
  isAlias : model.aliasName = trimSpace name
  enabled : model.enabled = true
  bound : model.backendIds = ids
  known : model.id = 0 ∨ model.id ∈ registry.models.models.map (·.id)
  renames : ∀ row ∈ registry.models.models, row.id = model.id → row.aliasName = model.aliasName
  node : model.hubNodeID = "" ↔
    ∀ row ∈ registry.models.models, row.aliasName = trimSpace name → row.hubNodeID = ""

theorem localRow_of_made
    (makes : registry.ollamaModel text name ids policy maxContext = .ok model) :
    LocalRow registry name ids model := by
  unfold Registry.ollamaModel at makes
  simp only at makes
  split at makes
  · cases makes
  · rename_i given
    rw [not_or] at given
    split at makes
    · rename_i absent
      cases makes
      refine ⟨given.1, given.2, rfl, rfl, rfl, Or.inl rfl, ?_, ?_⟩
      · intro row inside isNew
        exact absurd isNew (Nat.ne_of_gt (registry.models_id_pos row inside))
      · refine iff_of_true rfl ?_
        intro row inside isAlias
        exact absurd (decide_eq_true isAlias) (List.find?_eq_none.mp absent row inside)
    · rename_i old found
      cases makes
      have inside := List.mem_of_find?_eq_some found
      have isAlias := ModelTables.getModelByAlias_aliasName found
      refine ⟨given.1, given.2, isAlias, rfl, rfl,
        Or.inr (List.mem_map.mpr ⟨old, inside, rfl⟩), ?_, ?_⟩
      · intro row listed sameId
        exact congrArg (·.aliasName) (Registry.model_ext listed inside sameId)
      · constructor
        · intro noNode row listed alsoAlias
          rw [Registry.model_ext_alias listed inside (alsoAlias.trans isAlias.symm)]
          exact noNode
        · intro noNodes
          exact noNodes old inside isAlias

/-- A call that succeeds has saved such a row. -/
theorem connectOllamaModel_ok
    (done : registry.connectOllamaModel text name ids policy maxContext = (next, .ok ())) :
    ∃ model id, LocalRow registry name ids model ∧
      registry.saveModel text model = (next, .ok id) := by
  cases makes : registry.ollamaModel text name ids policy maxContext with
  | error refusal =>
      rw [Registry.connectOllamaModel, makes] at done
      cases done
  | ok model =>
      rw [Registry.connectOllamaModel, makes, Registry.saveMade] at done
      cases saves : registry.saveModel text model with
      | mk last outcome =>
          rw [saves] at done
          cases outcome with
          | error refusal => cases done
          | ok id =>
              have isNext : last = next := congrArg Prod.fst done
              rw [isNext] at saves
              exact ⟨model, id, localRow_of_made makes, saves⟩

end Saving

section Picking

variable {snapshot : Snapshot} {name : String} {model : Model} {ids : List BackendId}

/-- `pick` reads the backends, and of the models only the one with the name. -/
theorem pick_withModels {tables others : ModelTables}
    (sameAlias : tables.getModelByAlias name = others.getModelByAlias name)
    (sameBackends : tables.backends = others.backends) :
    pick (snapshot.withModels tables) name = pick (snapshot.withModels others) name := by
  have sameBound : ∀ model, boundCandidates (snapshot.withModels tables) model =
      boundCandidates (snapshot.withModels others) model := by
    intro model
    have sameRows : tables.getBackend = others.getBackend := by
      funext id
      rw [ModelTables.getBackend, ModelTables.getBackend, sameBackends]
    simp only [boundCandidates, Snapshot.withModels, sameRows]
  have sameByName : ∀ upstream policy, pickByName (snapshot.withModels tables) name upstream policy =
      pickByName (snapshot.withModels others) name upstream policy := by
    intro upstream policy
    have sameList : tables.listBackends = others.listBackends := by
      rw [ModelTables.listBackends, ModelTables.listBackends, sameBackends]
    simp only [pickByName, nameCandidates, Snapshot.withModels, sameList]
    rfl
  have sameModel : (snapshot.withModels tables).models.getModelByAlias name =
      (snapshot.withModels others).models.getModelByAlias name := sameAlias
  simp only [pick, sameModel, sameBound, sameByName]
  rfl

theorem servedBy_withModels {tables others : ModelTables}
    (sameAlias : tables.getModelByAlias name = others.getModelByAlias name)
    (sameBackends : tables.backends = others.backends) :
    ServedBy (snapshot.withModels tables) name ids ↔
      ServedBy (snapshot.withModels others) name ids := by
  rw [ServedBy, ServedBy, pick_withModels sameAlias sameBackends]
  simp only [Snapshot.withModels, sameBackends]

/-- An alias of a hub node is never served by a backend of the store. -/
theorem not_servedBy_of_hub (plain : hasPrefix name "hub|" = false)
    (found : snapshot.models.getModelByAlias name = some model) (enabled : model.enabled = true)
    (isHub : model.hubNodeID ≠ "") : ¬ServedBy snapshot name ids := by
  rintro ⟨backend, upstream, picked, inside, _⟩
  have isNode : ∃ node nodeName, backend = hubBackend node nodeName := by
    simp only [pick, hubName_eq_none plain, found, enabled, Bool.not_true, Bool.false_eq_true,
      if_false, if_pos isHub] at picked
    split at picked
    · cases picked
      exact ⟨_, _, rfl⟩
    · cases picked
      exact ⟨_, _, rfl⟩
  rcases isNode with ⟨node, nodeName, rfl⟩
  exact hubBackend_not_mem node nodeName inside

/-- An enabled alias that is of no hub node is served by the backends it is bound to. -/
theorem servedBy_of_local (plain : hasPrefix name "hub|" = false)
    (found : snapshot.models.getModelByAlias name = some model) (enabled : model.enabled = true)
    (noNode : model.hubNodeID = "") (bound : model.backendIds = ids) (given : ids ≠ [])
    (usable : Usable snapshot ids) : ServedBy snapshot name ids := by
  have isLocal : localModel snapshot name = some model :=
    localModel_eq_some.mpr ⟨found, enabled, noNode⟩
  have available : ∃ backend, Available snapshot model backend := by
    rcases List.exists_mem_of_ne_nil ids given with ⟨id, inside⟩
    rcases usable id inside with ⟨backend, listed, rfl, isEnabled, healthy⟩
    refine ⟨backend, listed, ?_, isEnabled, healthy⟩
    rwa [bound]
  rcases pick_available plain isLocal available with ⟨backend, ⟨listed, isBound, _⟩, picked⟩
  rw [bound] at isBound
  exact ⟨backend, model.upstreamName, picked, listed, isBound⟩

end Picking

section Connecting

variable {text : TextLibrary} {registry next : Registry} {snapshot : Snapshot} {name policy : String}
  {ids : List BackendId} {maxContext : ℤ}

/-- The alias itself is served by the backends of the call exactly when no row with it was of a
hub node. -/
theorem servedBy_connected (plain : hasPrefix name "hub|" = false) (trimmed : trimSpace name = name)
    (done : registry.connectOllamaModel text name ids policy maxContext = (next, .ok ()))
    (usable : Usable (snapshot.withModels registry.models) ids) :
    ServedBy (snapshot.withModels next.models) name ids ↔
      ∀ row ∈ registry.models.models, row.aliasName = name → row.hubNodeID = "" := by
  rcases connectOllamaModel_ok done with ⟨model, id, made, saves⟩
  have saved := Registry.saved_of_ok made.known saves
  have isAlias : model.aliasName = name := made.isAlias.trans trimmed
  have found : (snapshot.withModels next.models).models.getModelByAlias name =
      some { Registry.normalizeModel text model with id := id } := by
    have isRow := Registry.getModelByAlias_of_mem saved.row
    rw [← isAlias]
    exact isRow
  have stillUsable : Usable (snapshot.withModels next.models) ids := by
    intro wanted inside
    rcases usable wanted inside with ⟨backend, listed, rest⟩
    refine ⟨backend, ?_, rest⟩
    rw [Snapshot.withModels, saved.backends]
    exact listed
  have node := made.node
  rw [trimmed] at node
  rw [← node]
  constructor
  · intro served
    by_contra isHub
    exact not_servedBy_of_hub plain found made.enabled isHub served
  · intro noNode
    exact servedBy_of_local plain found made.enabled noNode made.bound made.given stillUsable

/-- A name with blanks around it is no alias that the call writes. -/
theorem servedBy_untrimmed (blanks : trimSpace name ≠ name)
    (done : registry.connectOllamaModel text name ids policy maxContext = (next, .ok ())) :
    ServedBy (snapshot.withModels next.models) name ids ↔
      ServedBy (snapshot.withModels registry.models) name ids := by
  rcases connectOllamaModel_ok done with ⟨model, id, made, saves⟩
  have saved := Registry.saved_of_ok made.known saves
  have other : name ≠ model.aliasName := by
    rw [made.isAlias]
    exact blanks.symm
  exact servedBy_withModels (getModelByAlias_saveModel saves made.renames other) saved.backends

end Connecting

/-- After `ConnectOllamaModel` the name is served by one of the backends exactly when the alias
was of no hub node; a name with blanks is served as it was before. -/
theorem servedBy_connectOllamaModel_iff {text : TextLibrary} {registry next : Registry}
    {snapshot : Snapshot} {name policy : String} {ids : List BackendId} {maxContext : ℤ}
    (plain : hasPrefix name "hub|" = false)
    (done : registry.connectOllamaModel text name ids policy maxContext = (next, .ok ()))
    (usable : Usable (snapshot.withModels registry.models) ids) :
    ServedBy (snapshot.withModels next.models) name ids ↔
      (trimSpace name = name ∧
          ∀ row ∈ registry.models.models, row.aliasName = name → row.hubNodeID = "") ∨
        (trimSpace name ≠ name ∧ ServedBy (snapshot.withModels registry.models) name ids) := by
  by_cases trimmed : trimSpace name = name
  · simp only [trimmed, true_and, ne_eq, not_true, false_and, or_false]
    exact servedBy_connected plain trimmed done usable
  · simp only [trimmed, false_and, false_or, ne_eq, not_false_iff, true_and]
    exact servedBy_untrimmed trimmed done

section Trials

/-- One server. -/
def macHost : Backend := ⟨1, "mac", "http://192.168.88.82:11434", .ollama, "", true⟩

theorem macHost_nodup : ([macHost].map (·.id)).Nodup :=
  List.nodup_singleton _

theorem macHost_pos : ∀ backend ∈ [macHost], 0 < backend.id := by
  decide

/-- A store with it. -/
def oneMac : Registry :=
  Registry.empty [macHost] macHost_nodup macHost_pos

/-- The model of a hub node, too. -/
def oneMacOneNode : Registry :=
  (oneMac.connectHubModel asciiText "coder" "n1" "ams-1" 8192 []).1

/-- All servers are up. -/
def hostsUp : Snapshot where
  models := oneMac.models
  policies := noPolicies
  healthy := fun _ => true
  served := fun _ => ["coder", "qwen3"]
  conns := fun _ => 0
  catalog := []
  turns := 0
  promptCacheMode := "auto"
  hubURL := ""

theorem servedBy_connectOllamaModel_qwen :
    ServedBy (hostsUp.withModels
        (oneMacOneNode.connectOllamaModel asciiText "qwen3" [1] "" 0).1.models) "qwen3" [1] ↔
      (trimSpace "qwen3" = "qwen3" ∧
          ∀ row ∈ oneMacOneNode.models.models, row.aliasName = "qwen3" → row.hubNodeID = "") ∨
        (trimSpace "qwen3" ≠ "qwen3" ∧
          ServedBy (hostsUp.withModels oneMacOneNode.models) "qwen3" [1]) := by
  have usable : Usable (hostsUp.withModels oneMacOneNode.models) [1] := by
    intro id inside
    rw [List.mem_singleton.mp inside]
    exact ⟨_, List.mem_singleton_self _, rfl, rfl, rfl⟩
  have done : oneMacOneNode.connectOllamaModel asciiText "qwen3" [1] "" 0 =
      ((oneMacOneNode.connectOllamaModel asciiText "qwen3" [1] "" 0).1, .ok ()) :=
    Prod.ext rfl (by decide +kernel)
  exact servedBy_connectOllamaModel_iff (by decide) done usable

/-- The alias `coder` stays the one of the hub node. -/
theorem not_servedBy_connectOllamaModel :
    ¬∀ (text : TextLibrary) (registry next : Registry) (snapshot : Snapshot) (name policy : String)
      (ids : List BackendId) (maxContext : ℤ),
      hasPrefix name "hub|" = false →
      registry.connectOllamaModel text name ids policy maxContext = (next, .ok ()) →
      Usable (snapshot.withModels registry.models) ids →
        ServedBy (snapshot.withModels next.models) name ids := by
  intro claim
  have usable : Usable (hostsUp.withModels oneMacOneNode.models) [1] := by
    intro id inside
    rw [List.mem_singleton.mp inside]
    exact ⟨_, List.mem_singleton_self _, rfl, rfl, rfl⟩
  have served := claim asciiText oneMacOneNode _ hostsUp "coder" "" [1] 0 (by decide)
    (Prod.ext rfl (by decide +kernel)) usable
  rcases served with ⟨backend, upstream, picked, inside, _⟩
  have isHub : pick (hostsUp.withModels
      (oneMacOneNode.connectOllamaModel asciiText "coder" [1] "" 0).1.models) "coder" =
      .ok (hubBackend "n1" "ams-1", "coder") := by
    rfl
  cases isHub.symm.trans picked
  exact hubBackend_not_mem "n1" "ams-1" inside

end Trials

end MikroLLM.Proxy
