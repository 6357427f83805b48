import MikroLLM.Store.SavedModels

/-!
# Connecting a model

`ConnectOllamaModel` and `ConnectHubModel` make up a model and save it: what a save
that succeeds leaves, and what a second call finds.
-/

namespace MikroLLM.Store

open Domain Go Library

namespace Registry

variable {text : TextLibrary} {registry next : Registry} {model row : Model} {id : ModelId}

/-- What a save that succeeds leaves: the row with all its backends, and the rest as it was. -/
structure Saved (text : TextLibrary) (registry next : Registry) (model : Model) (id : ModelId) :
    Prop where
  row : { normalizeModel text model with id := id } ∈ next.models.models
  queues : next.queues = registry.queues
  backends : next.models.backends = registry.models.backends
  fits : (insertBackends (registry.models.backends.map (·.id)) [] model.backendIds).2 = true
  free : registry.aliasTaken model.aliasName 0 model.id = false
  isNew : model.id = 0 → id = registry.nextModel
  isOld : model.id ≠ 0 → id = model.id

/-- All backends of a row that is there are written. -/
theorem bindBackends_ok {ids : List BackendId} (inside : row ∈ registry.models.models)
    (all : (registry.bindBackends row.id ids).2 = true) :
    { row with backendIds := ids } ∈ (registry.bindBackends row.id ids).1.models.models ∧
      (insertBackends (registry.models.backends.map (·.id)) [] ids).2 = true := by
  have present : row.id ∈ registry.models.models.map (·.id) := List.mem_map_of_mem inside
  simp only [bindBackends, if_pos present] at all ⊢
  refine ⟨List.mem_map.mpr ⟨row, inside, ?_⟩, all⟩
  rw [if_pos rfl, insertBackends_eq all]
  rfl

/-- The first statement of a save writes the row, whether it is new or not. -/
theorem written_row {middle : Registry} (known : row.id = 0 ∨ row.id ∈ registry.models.models.map (·.id))
    (writes : (if row.id = 0 then
        (registry.insertModel row).map fun next => (next, registry.nextModel)
      else (registry.updateModel row).map fun next => (next, row.id)) = some (middle, id)) :
    { row with id := id } ∈ middle.models.models ∧ middle.queues = registry.queues ∧
      middle.models.backends = registry.models.backends ∧
      (row.id = 0 → id = registry.nextModel) ∧ (row.id ≠ 0 → id = row.id) := by
  split at writes
  · rename_i isNew
    rcases Option.map_eq_some_iff.mp writes with ⟨inserted, inserts, same⟩
    cases same
    rw [insertModel] at inserts
    split at inserts
    · cases inserts
      exact ⟨List.mem_append_right _ (List.mem_singleton_self _), rfl, rfl, fun _ => rfl,
        fun notNew => absurd isNew notNew⟩
    · cases inserts
  · rename_i notNew
    have present := known.resolve_left notNew
    rcases Option.map_eq_some_iff.mp writes with ⟨updated, updates, same⟩
    cases same
    rw [updateModel, if_pos present] at updates
    split at updates
    · cases updates
      rcases List.mem_map.mp present with ⟨old, inside, isId⟩
      exact ⟨List.mem_map.mpr ⟨old, inside, if_pos isId⟩, rfl, rfl,
        fun isNew => absurd isNew notNew, fun _ => rfl⟩
    · cases updates

/-- The statements after it write the backends. -/
theorem bound_row {middle : Registry} (inside : { row with id := id } ∈ middle.models.models)
    (all : (middle.bindBackends id row.backendIds).2 = true) :
    { row with id := id } ∈ (middle.bindBackends id row.backendIds).1.models.models ∧
      (insertBackends (middle.models.backends.map (·.id)) [] row.backendIds).2 = true :=
  bindBackends_ok inside all

theorem saved_of_ok (known : model.id = 0 ∨ model.id ∈ registry.models.models.map (·.id))
    (saved : registry.saveModel text model = (next, .ok id)) :
    Saved text registry next model id := by
  simp only [saveModel] at saved
  split at saved
  · cases saved
  · rename_i notTaken
    split at saved
    · cases saved
    · rename_i middle rowId written
      have isKnown : (normalizeModel text model).id = 0 ∨
          (normalizeModel text model).id ∈ registry.models.models.map (·.id) := known
      rcases written_row isKnown written with ⟨isWritten, queues, backends, isNew, isOld⟩
      rw [Prod.mk.injEq] at saved
      rcases saved with ⟨rfl, succeeds⟩
      split at succeeds
      · rename_i all
        rw [Except.ok.injEq] at succeeds
        rcases bound_row isWritten all with ⟨isBound, fits⟩
        rw [backends] at fits
        rw [← succeeds]
        exact ⟨isBound, queues, backends, fits, Bool.eq_false_of_not_eq_true notTaken, isNew, isOld⟩
      · cases succeeds

/-- A row that is written over itself. -/
theorem updateModel_self (inside : row ∈ registry.models.models) :
    ∃ middle, registry.updateModel row = some middle ∧
      middle.models.models = registry.models.models ∧
      middle.models.backends = registry.models.backends := by
  have present : row.id ∈ registry.models.models.map (·.id) := List.mem_map_of_mem inside
  have unique : ∀ old ∈ registry.models.models, old.id ≠ row.id → old.aliasName ≠ row.aliasName := by
    intro old listed other sameAlias
    exact other (congrArg (·.id) (model_ext_alias listed inside sameAlias))
  have same : overwrite (·.id) row registry.models.models = registry.models.models := by
    rw [overwrite]
    conv_rhs => rw [← List.map_id registry.models.models]
    apply List.map_congr_left
    intro old listed
    split
    · rename_i isRow
      exact (model_ext listed inside isRow).symm
    · rfl
  rw [updateModel, if_pos present, dif_pos unique]
  exact ⟨_, rfl, same, rfl⟩

/-- Backends that are written once more. -/
theorem bindBackends_self (inside : row ∈ registry.models.models)
    (fits : (insertBackends (registry.models.backends.map (·.id)) [] row.backendIds).2 = true) :
    (registry.bindBackends row.id row.backendIds).2 = true ∧
      (registry.bindBackends row.id row.backendIds).1.models.models = registry.models.models := by
  have present : row.id ∈ registry.models.models.map (·.id) := List.mem_map_of_mem inside
  simp only [bindBackends, if_pos present]
  refine ⟨fits, ?_⟩
  conv_rhs => rw [← List.map_id registry.models.models]
  apply List.map_congr_left
  intro old listed
  split
  · rename_i isRow
    rw [model_ext listed inside isRow, insertBackends_eq fits]
    rfl
  · rfl

/-- A save of what is there already. -/
theorem saveModel_again (inside : row ∈ registry.models.models)
    (same : normalizeModel text model = row)
    (free : registry.aliasTaken row.aliasName 0 row.id = false)
    (fits : (insertBackends (registry.models.backends.map (·.id)) [] row.backendIds).2 = true) :
    (registry.saveModel text model).2 = .ok row.id ∧
      (registry.saveModel text model).1.models.models = registry.models.models := by
  have notNew : ¬row.id = 0 := Nat.ne_of_gt (registry.models_id_pos row inside)
  rcases updateModel_self inside with ⟨middle, updates, models, backends⟩
  have stillInside : row ∈ middle.models.models := by rwa [models]
  have stillFits : (insertBackends (middle.models.backends.map (·.id)) [] row.backendIds).2 =
      true := by rwa [backends]
  rcases bindBackends_self stillInside stillFits with ⟨all, rows⟩
  simp only [saveModel, same, free, Bool.false_eq_true, if_false, if_neg notNew, updates,
    Option.map_some]
  rw [if_pos all]
  exact ⟨rfl, rows.trans models⟩

/-- A new row cannot get the alias of one that is there. -/
theorem saveModel_taken (text : TextLibrary) (isNew : model.id = 0) (inside : row ∈ registry.models.models)
    (sameAlias : row.aliasName = model.aliasName) :
    ∃ refusal, (registry.saveModel text model).2 = .error refusal := by
  have isNewRow : (normalizeModel text model).id = 0 := isNew
  have notInserted : registry.insertModel (normalizeModel text model) = none := by
    rw [insertModel, dif_neg]
    intro free
    exact free row inside sameAlias
  simp only [saveModel, if_pos isNewRow, notInserted, Option.map_none]
  split
  · exact ⟨_, rfl⟩
  · exact ⟨_, rfl⟩

/-- What is saved under a trimmed alias can be saved again. -/
theorem Saved.free_again (saved : Saved text registry next model id)
    (trimmed : trimSpace model.aliasName = model.aliasName) :
    next.aliasTaken model.aliasName 0 id = false := by
  have free := saved.free
  simp only [aliasTaken, trimmed, Bool.or_eq_false_iff] at free ⊢
  rw [saved.queues]
  refine ⟨⟨⟨free.1.1.1, ?_⟩, free.1.2⟩, free.2⟩
  rw [List.any_eq_false]
  intro other inside taken
  simp only [Bool.and_eq_true, decide_eq_true_eq] at taken
  have isRow := model_ext_alias inside saved.row taken.1
  exact taken.2 (congrArg (·.id) isRow)

/-- A second save of the same model, with its id. -/
theorem Saved.again {again : Model} (saved : Saved text registry next model id)
    (trimmed : trimSpace model.aliasName = model.aliasName)
    (same : normalizeModel text again = { normalizeModel text model with id := id }) :
    (next.saveModel text again).2 = .ok id ∧
      (next.saveModel text again).1.models.models = next.models.models := by
  have fits := saved.fits
  rw [← saved.backends] at fits
  exact saveModel_again saved.row same (saved.free_again trimmed) fits

section Hub

variable {name nodeID nodeName : String} {maxContext : ℤ} {media : List String}

/-- The row that has the alias. -/
theorem getModelByAlias_of_mem (inside : row ∈ registry.models.models) :
    registry.models.getModelByAlias row.aliasName = some row := by
  cases found : registry.models.getModelByAlias row.aliasName with
  | none => simpa using List.find?_eq_none.mp found row inside
  | some other =>
      have sameAlias := ModelTables.getModelByAlias_aliasName found
      rw [model_ext_alias (List.mem_of_find?_eq_some found) inside sameAlias]

/-- A new row of a hub node. -/
def hubRow (text : TextLibrary) (wanted name nodeID nodeName : String) (maxContext : ℤ)
    (media : List String) : Model where
  id := 0
  aliasName := wanted
  upstreamName := name
  lbPolicy := "least_conn"
  enabled := true
  backendIds := []
  maxContext := maxContext
  fallback := ""
  promptCache := ""
  params := ""
  media := if media = [] then inferMedia text name [] else media
  hubShare := false
  hubNodeID := nodeID
  hubNodeName := nodeName

/-- A row of the same hub node, as it is saved again. -/
def hubUpdate (old : Model) (name nodeName : String) (maxContext : ℤ) (media : List String) :
    Model :=
  { old with
    enabled := true
    upstreamName := name
    hubNodeName := nodeName
    maxContext := if 0 < maxContext then maxContext else old.maxContext
    media := if media = [] then old.media else media
    hubShare := false }

/-- What is saved for a model of a hub node. -/
theorem hubModel_cases
    (makes : registry.hubModel text name nodeID nodeName maxContext media = .ok model) :
    trimSpace name ≠ "" ∧ trimSpace nodeID ≠ "" ∧
      let shownName := hubNodeName (trimSpace nodeID) (trimSpace nodeName)
      ((registry.models.getModelByAlias (trimSpace name) = none ∧
          model = hubRow text (trimSpace name) (trimSpace name) (trimSpace nodeID) shownName
            maxContext media) ∨
        ∃ old, registry.models.getModelByAlias (trimSpace name) = some old ∧
          ((old.hubNodeID = trimSpace nodeID ∧
              model = hubUpdate old (trimSpace name) shownName maxContext media) ∨
            (old.hubNodeID ≠ trimSpace nodeID ∧
              model = hubRow text (trimSpace name ++ "@" ++ shownName) (trimSpace name)
                (trimSpace nodeID) shownName maxContext media))) := by
  unfold hubModel at makes
  simp only at makes
  split at makes
  · cases makes
  · rename_i notBlank
    rw [not_or] at notBlank
    refine ⟨notBlank.1, notBlank.2, ?_⟩
    split at makes
    · rename_i absent
      cases makes
      exact Or.inl ⟨absent, rfl⟩
    · rename_i old found
      refine Or.inr ⟨old, found, ?_⟩
      split at makes
      · rename_i sameNode
        cases makes
        exact Or.inl ⟨sameNode, rfl⟩
      · rename_i otherNode
        cases makes
        exact Or.inr ⟨otherNode, rfl⟩

/-- A row of the node gets what the call says. -/
theorem hubModel_same {old : Model}
    (named : trimSpace name ≠ "" ∧ trimSpace nodeID ≠ "")
    (found : registry.models.getModelByAlias (trimSpace name) = some old)
    (sameNode : old.hubNodeID = trimSpace nodeID) :
    registry.hubModel text name nodeID nodeName maxContext media =
      .ok (hubUpdate old (trimSpace name)
        (hubNodeName (trimSpace nodeID) (trimSpace nodeName)) maxContext media) := by
  simp only [hubModel, if_neg (not_or.mpr named), found, if_pos sameNode, hubUpdate]

/-- Next to a row of another node there is a new one. -/
theorem hubModel_other {old : Model} (text : TextLibrary) (nodeName : String) (maxContext : ℤ)
    (media : List String)
    (named : trimSpace name ≠ "" ∧ trimSpace nodeID ≠ "")
    (found : registry.models.getModelByAlias (trimSpace name) = some old)
    (otherNode : old.hubNodeID ≠ trimSpace nodeID) :
    registry.hubModel text name nodeID nodeName maxContext media =
      .ok (hubRow text
        (trimSpace name ++ "@" ++ hubNodeName (trimSpace nodeID) (trimSpace nodeName))
        (trimSpace name) (trimSpace nodeID)
        (hubNodeName (trimSpace nodeID) (trimSpace nodeName)) maxContext media) := by
  simp only [hubModel, if_neg (not_or.mpr named), found, if_neg otherNode, hubRow]

/-- The row has what the call says. -/
structure Connected (row : Model) (name nodeName : String) (maxContext : ℤ) : Prop where
  enabled : row.enabled = true
  upstream : row.upstreamName = name
  shown : row.hubNodeName = nodeName
  context : 0 < maxContext → row.maxContext = maxContext
  share : row.hubShare = false

theorem hubUpdate_of_connected (connected : Connected row name nodeName maxContext) :
    hubUpdate row name nodeName maxContext media =
      { row with media := if media = [] then row.media else media } := by
  have context : (if 0 < maxContext then maxContext else row.maxContext) = row.maxContext := by
    split
    · rename_i positive
      exact (connected.context positive).symm
    · rfl
  rw [hubUpdate, ← connected.enabled, ← connected.upstream, ← connected.shown, context,
    ← connected.share]

theorem Connected.normalize (text : TextLibrary)
    (connected : Connected row name nodeName maxContext)
    (named : name ≠ "") : Connected (normalizeModel text row) name nodeName maxContext := by
  have upstream : row.upstreamName ≠ "" := by rwa [connected.upstream]
  constructor
  · exact connected.enabled
  · exact (if_neg upstream).trans connected.upstream
  · exact connected.shown
  · exact connected.context
  · simp only [normalizeModel, connected.share, ite_self]

/-- What a call has written, a second one writes again. -/
theorem normalizeModel_hubUpdate (words : ∀ word ∈ storedWords, text.toLower word = word)
    (connected : Connected model name nodeName maxContext) (named : name ≠ "")
    (given : media ≠ [] → model.media = media) (id : ModelId) :
    normalizeModel text
        (hubUpdate { normalizeModel text model with id := id } name nodeName maxContext media) =
      { normalizeModel text model with id := id } := by
  have written : Connected { normalizeModel text model with id := id } name nodeName maxContext := by
    have normal := connected.normalize text named
    exact ⟨normal.enabled, normal.upstream, normal.shown, normal.context, normal.share⟩
  have sameMedia : parseMedia text (joinMedia text
      (if media = [] then (normalizeModel text model).media else media)) =
        (normalizeModel text model).media := by
    have stored : (normalizeModel text model).media =
        parseMedia text (joinMedia text model.media) := by
      simp only [normalizeModel]
    rw [stored]
    split
    · exact parseMedia_joinMedia words (joinMedia text model.media)
    · rename_i some
      rw [given some]
  have moved : ∀ (row : Model) (kinds : List String),
      normalizeModel text { row with id := id, media := kinds } =
        { normalizeModel text row with id := id, media := parseMedia text (joinMedia text kinds) } :=
    fun row kinds => by simp only [normalizeModel]
  rw [hubUpdate_of_connected written, moved (normalizeModel text model), sameMedia,
    normalizeModel_normalizeModel words]

theorem hubRow_connected (wanted : String) :
    Connected (hubRow text wanted name nodeID nodeName maxContext media) name nodeName maxContext :=
  ⟨rfl, rfl, rfl, fun _ => rfl, rfl⟩

theorem hubUpdate_connected (old : Model) :
    Connected (hubUpdate old name nodeName maxContext media) name nodeName maxContext :=
  ⟨rfl, rfl, rfl, fun positive => if_pos positive, rfl⟩

theorem connectHubModel_eq (made : registry.hubModel text name nodeID nodeName maxContext media =
    .ok model) :
    registry.connectHubModel text name nodeID nodeName maxContext media =
      ((registry.saveModel text model).1, (registry.saveModel text model).2.map fun _ => ()) := by
  rw [connectHubModel, made]
  rfl

/-- A second call saves the row that the first one made for the alias itself. -/
theorem connectHubModel_again (words : ∀ word ∈ storedWords, text.toLower word = word)
    (named : trimSpace name ≠ "" ∧ trimSpace nodeID ≠ "")
    (saved : Saved text registry next model id) (isAlias : model.aliasName = trimSpace name)
    (isNode : model.hubNodeID = trimSpace nodeID)
    (connected : Connected model (trimSpace name)
      (hubNodeName (trimSpace nodeID) (trimSpace nodeName)) maxContext)
    (given : media ≠ [] → model.media = media) :
    (next.connectHubModel text name nodeID nodeName maxContext media).2 = .ok () ∧
      (next.connectHubModel text name nodeID nodeName maxContext media).1.models.models =
        next.models.models := by
  have found : next.models.getModelByAlias (trimSpace name) =
      some { normalizeModel text model with id := id } := by
    rw [← isAlias]
    exact getModelByAlias_of_mem saved.row
  have trimmed : trimSpace model.aliasName = model.aliasName := by
    rw [isAlias, trimSpace_trimSpace]
  obtain ⟨again, makes, same⟩ : ∃ again,
      next.hubModel text name nodeID nodeName maxContext media = .ok again ∧
        normalizeModel text again = { normalizeModel text model with id := id } :=
    ⟨_, hubModel_same named found isNode,
      normalizeModel_hubUpdate words connected named.1 given id⟩
  rcases saved.again trimmed same with ⟨succeeds, sameRows⟩
  rw [connectHubModel_eq makes]
  generalize next.saveModel text again = outcome at succeeds sameRows ⊢
  rw [succeeds]
  exact ⟨rfl, sameRows⟩

/-- A second call finds the row of another node, and the alias that it would write. -/
theorem connectHubModel_collides {old : Model} (text : TextLibrary) (maxContext : ℤ)
    (media : List String)
    (named : trimSpace name ≠ "" ∧ trimSpace nodeID ≠ "")
    (inside : old ∈ registry.models.models) (isAlias : old.aliasName = trimSpace name)
    (otherNode : old.hubNodeID ≠ trimSpace nodeID) (taken : row ∈ registry.models.models)
    (isTaken : row.aliasName =
      trimSpace name ++ "@" ++ hubNodeName (trimSpace nodeID) (trimSpace nodeName)) :
    ∃ refusal, (registry.connectHubModel text name nodeID nodeName maxContext media).2 =
      .error refusal := by
  have found := getModelByAlias_of_mem inside
  rw [isAlias] at found
  have makes := hubModel_other text nodeName maxContext media named found otherNode
  let shownName := hubNodeName (trimSpace nodeID) (trimSpace nodeName)
  have refused : ∃ refusal, (registry.saveModel text (hubRow text
      (trimSpace name ++ "@" ++ shownName) (trimSpace name) (trimSpace nodeID) shownName maxContext
      media)).2 = .error refusal :=
    saveModel_taken text rfl taken isTaken
  rcases refused with ⟨refusal, fails⟩
  rw [connectHubModel_eq makes, fails]
  exact ⟨refusal, rfl⟩

end Hub

/-- A second call of `ConnectHubModel` succeeds and leaves the models as they are exactly when the
row that had the alias before the first one, if any, was of the same node. -/
theorem connectHubModel_again_iff {name nodeID nodeName : String} {maxContext : ℤ}
    {media : List String} (words : ∀ word ∈ storedWords, text.toLower word = word)
    (done : registry.connectHubModel text name nodeID nodeName maxContext media = (next, .ok ())) :
    ((next.connectHubModel text name nodeID nodeName maxContext media).2 = .ok () ∧
        (next.connectHubModel text name nodeID nodeName maxContext media).1.models.models =
          next.models.models) ↔
      ∀ row ∈ registry.models.models, row.aliasName = trimSpace name →
        row.hubNodeID = trimSpace nodeID := by
  cases makes : registry.hubModel text name nodeID nodeName maxContext media with
  | error refusal =>
      rw [connectHubModel, makes] at done
      cases done
  | ok model =>
      rw [connectHubModel_eq makes] at done
      cases saves : registry.saveModel text model with
      | mk last outcome =>
          cases outcome with
          | error refusal =>
              rw [saves] at done
              cases done
          | ok id =>
              rw [saves] at done
              have isNext : last = next := congrArg Prod.fst done
              rw [isNext] at saves
              rcases hubModel_cases makes with ⟨hasName, hasNode, absent | ⟨old, found, same | other⟩⟩
              · rcases absent with ⟨absent, isModel⟩
                have saved : Saved text registry next model id :=
                  saved_of_ok (Or.inl (by rw [isModel]; rfl)) saves
                refine iff_of_true ?_ ?_
                · apply connectHubModel_again words ⟨hasName, hasNode⟩ saved
                  · rw [isModel]
                    rfl
                  · rw [isModel]
                    rfl
                  · rw [isModel]
                    exact hubRow_connected _
                  · intro given
                    rw [isModel]
                    exact if_neg given
                · intro row inside isAlias
                  have missing := List.find?_eq_none.mp absent row inside
                  exact absurd (decide_eq_true isAlias) missing
              · rcases same with ⟨sameNode, isModel⟩
                have inside := List.mem_of_find?_eq_some found
                have isAlias := ModelTables.getModelByAlias_aliasName found
                have saved : Saved text registry next model id :=
                  saved_of_ok (Or.inr (by
                    rw [isModel]
                    exact List.mem_map.mpr ⟨old, inside, rfl⟩)) saves
                refine iff_of_true ?_ ?_
                · apply connectHubModel_again words ⟨hasName, hasNode⟩ saved
                  · rw [isModel]
                    exact isAlias
                  · rw [isModel]
                    exact sameNode
                  · rw [isModel]
                    exact hubUpdate_connected old
                  · intro given
                    rw [isModel]
                    exact if_neg given
                · intro row listed alsoAlias
                  rw [model_ext_alias listed inside (alsoAlias.trans isAlias.symm)]
                  exact sameNode
              · rcases other with ⟨otherNode, isModel⟩
                have inside := List.mem_of_find?_eq_some found
                have isAlias := ModelTables.getModelByAlias_aliasName found
                have isNew : model.id = 0 := by
                  rw [isModel]
                  rfl
                have saved : Saved text registry next model id := saved_of_ok (Or.inl isNew) saves
                have stays : old ∈ next.models.models := by
                  have otherId : old.id ≠ model.id := by
                    rw [isNew]
                    exact Nat.ne_of_gt (registry.models_id_pos old inside)
                  have kept : old ∈ (registry.saveModel text model).1.models.models :=
                    mem_saveModel inside otherId
                  rwa [saves] at kept
                refine iff_of_false ?_ ?_
                · rintro ⟨succeeds, _⟩
                  have isTaken : model.aliasName = trimSpace name ++ "@" ++
                      hubNodeName (trimSpace nodeID) (trimSpace nodeName) := by
                    rw [isModel]
                    rfl
                  rcases connectHubModel_collides text maxContext media ⟨hasName, hasNode⟩ stays
                    isAlias otherNode saved.row isTaken with ⟨refusal, fails⟩
                  rw [fails] at succeeds
                  cases succeeds
                · exact fun all => otherNode (all old inside isAlias)

section Trials

/-- A store with the model of one node. -/
def oneNode : Registry :=
  ((Registry.empty [] List.nodup_nil ModelTables.backends_pos_nil).connectHubModel asciiText
    "coder" "n1" "ams-1" 8192 [mediaImage]).1

theorem connectHubModel_again_oneNode :
    ((oneNode.connectHubModel asciiText "coder" "n1" "ams-1" 8192 [mediaImage]).2 = .ok () ∧
        (oneNode.connectHubModel asciiText "coder" "n1" "ams-1" 8192 [mediaImage]).1.models.models =
          oneNode.models.models) ↔
      ∀ row ∈ (Registry.empty [] List.nodup_nil ModelTables.backends_pos_nil).models.models,
        row.aliasName = trimSpace "coder" → row.hubNodeID = trimSpace "n1" :=
  connectHubModel_again_iff (by decide +kernel) (Prod.ext rfl (by decide +kernel))

/-- The same alias of another node, twice. -/
theorem not_connectHubModel_again :
    ¬∀ (text : TextLibrary) (registry next : Registry) (name nodeID nodeName : String)
      (maxContext : ℤ) (media : List String),
      (∀ word ∈ storedWords, text.toLower word = word) →
      registry.connectHubModel text name nodeID nodeName maxContext media = (next, .ok ()) →
        (next.connectHubModel text name nodeID nodeName maxContext media).2 = .ok () ∧
          (next.connectHubModel text name nodeID nodeName maxContext media).1.models.models =
            next.models.models := by
  intro claim
  have again := claim asciiText oneNode _ "coder" "n2" "ber-2" 8192 [mediaImage] (by decide +kernel)
    (Prod.ext rfl (by decide +kernel))
  have fails : ((oneNode.connectHubModel asciiText "coder" "n2" "ber-2" 8192
      [mediaImage]).1.connectHubModel asciiText "coder" "n2" "ber-2" 8192 [mediaImage]).2 =
      .error (.text "alias coder@ber-2 already used") := by
    decide +kernel
  exact absurd (fails.symm.trans again.1) (by decide)

end Trials

end Registry

end MikroLLM.Store
