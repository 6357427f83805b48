import MikroLLM.Store.HubRows

/-!
# Models as they are saved

What `SaveModel` writes is read back and saved again without a change, and a
save of a row that succeeds writes the whole row.
-/

namespace MikroLLM.Store

open Domain Go Library

namespace Registry

variable {text : TextLibrary} {registry next : Registry} {model other row : Model} {id : ModelId}

/-- When no insertion fails, all backends are written. -/
theorem insertBackends_eq {known ids written : List BackendId}
    (all : (insertBackends known written ids).2 = true) :
    (insertBackends known written ids).1 = written ++ ids := by
  induction ids generalizing written with
  | nil => simp [insertBackends]
  | cons id rest ih =>
      simp only [insertBackends] at all ⊢
      split at all
      · rename_i fits
        rw [if_pos fits, ih all]
        simp
      · exact nomatch all

theorem with_own_backendIds (row : Model) : { row with backendIds := [] ++ row.backendIds } = row :=
  rfl

/-- A save of a row that succeeds writes the whole row. -/
theorem saveModel_eq_ok (present : model.id ∈ registry.models.models.map (·.id))
    (saved : registry.saveModel text model = (next, .ok id)) :
    normalizeModel text model ∈ next.models.models := by
  have notNew : ¬(normalizeModel text model).id = 0 := by
    rcases List.mem_map.mp present with ⟨old, inside, isId⟩
    change ¬model.id = 0
    rw [← isId]
    exact Nat.ne_of_gt (registry.models_id_pos old inside)
  simp only [saveModel] at saved
  split at saved
  · cases saved
  · split at saved
    · cases saved
    · rename_i middle rowId written
      rcases Option.map_eq_some_iff.mp written with ⟨updated, updates, same⟩
      cases same
      have isWritten : normalizeModel text model ∈ middle.models.models := by
        have isRow : (normalizeModel text model).id ∈
            registry.models.models.map (·.id) := present
        rw [updateModel, if_pos isRow] at updates
        split at updates
        · cases updates
          rcases List.mem_map.mp present with ⟨old, inside, isId⟩
          exact List.mem_map.mpr ⟨old, inside, if_pos isId⟩
        · cases updates
      simp only [Prod.mk.injEq] at saved
      rcases saved with ⟨rfl, succeeds⟩
      split at succeeds
      · rename_i all
        refine List.mem_map.mpr ⟨_, isWritten, ?_⟩
        rw [if_pos rfl, insertBackends_eq all]
        exact with_own_backendIds _
      · cases succeeds

/-- The error of a save and its rows depend on what is written. -/
theorem saveModel_congr {other : Model}
    (same : normalizeModel text model = normalizeModel text other) :
    registry.saveModel text model = registry.saveModel text other := by
  simp only [saveModel, same]

/-- An update leaves the ids and the backends as they are. -/
theorem updateModel_keys {middle : Registry} (present : row.id ∈ registry.models.models.map (·.id))
    (updates : registry.updateModel row = some middle) :
    middle.models.models.map (·.id) = registry.models.models.map (·.id) ∧
      middle.models.backends = registry.models.backends := by
  rw [updateModel, if_pos present] at updates
  split at updates
  · cases updates
    exact ⟨overwrite_map_key _ _ _, rfl⟩
  · cases updates

/-- An update is possible under an alias that no other row has. -/
theorem isSome_updateModel_iff (present : row.id ∈ registry.models.models.map (·.id)) :
    (registry.updateModel row).isSome ↔
      ∀ old ∈ registry.models.models, old.id ≠ row.id → old.aliasName ≠ row.aliasName := by
  rw [updateModel, if_pos present]
  split
  · rename_i free
    exact iff_of_true rfl free
  · rename_i taken
    exact iff_of_false (by simp) taken

/-- Whether a save of a row succeeds depends on its id, its alias and its backends. -/
theorem saveModel_ok_congr (present : model.id ∈ registry.models.models.map (·.id))
    (saved : registry.saveModel text model = (next, .ok id)) (sameId : other.id = model.id)
    (sameAlias : other.aliasName = model.aliasName)
    (sameBackends : other.backendIds = model.backendIds) :
    ∃ last, registry.saveModel text other = (last, .ok id) := by
  have rowId : (normalizeModel text other).id =
      (normalizeModel text model).id := sameId
  have rowAlias : (normalizeModel text other).aliasName =
      (normalizeModel text model).aliasName := sameAlias
  have rowBackends : (normalizeModel text other).backendIds =
      (normalizeModel text model).backendIds := sameBackends
  have rowPresent : (normalizeModel text model).id ∈
      registry.models.models.map (·.id) := present
  have notNew : ¬(normalizeModel text model).id = 0 := by
    rcases List.mem_map.mp present with ⟨old, inside, isId⟩
    change ¬model.id = 0
    rw [← isId]
    exact Nat.ne_of_gt (registry.models_id_pos old inside)
  simp only [saveModel] at saved ⊢
  rw [rowAlias, rowId, rowBackends]
  by_cases taken : registry.aliasTaken (normalizeModel text model).aliasName 0
      (normalizeModel text model).id = true
  · rw [if_pos taken] at saved
    exact nomatch congrArg Prod.snd saved
  · rw [if_neg taken, if_neg notNew] at saved ⊢
    cases updates : registry.updateModel (normalizeModel text model) with
    | none =>
        rw [updates] at saved
        exact nomatch congrArg Prod.snd saved
    | some middle =>
        have free := (isSome_updateModel_iff rowPresent).mp (by rw [updates, Option.isSome_some])
        rw [← rowId, ← rowAlias] at free
        have isSome := (isSome_updateModel_iff (by rwa [rowId])).mpr free
        rcases Option.isSome_iff_exists.mp isSome with ⟨last, updatesToo⟩
        have keys := updateModel_keys rowPresent updates
        have keysToo := updateModel_keys (by rwa [rowId]) updatesToo
        rw [updates] at saved
        rw [updatesToo]
        simp only [Option.map_some, Prod.mk.injEq] at saved ⊢
        have sameOutcome : (last.bindBackends (normalizeModel text model).id
            (normalizeModel text model).backendIds).2 =
            (middle.bindBackends (normalizeModel text model).id
              (normalizeModel text model).backendIds).2 := by
          simp only [bindBackends, keys.1, keys.2, keysToo.1, keysToo.2]
        rw [sameOutcome]
        exact ⟨_, rfl, saved.2⟩

/-- The flag and the media are written on their own. -/
theorem normalizeModel_with (text : TextLibrary) (model : Model) (enabled : Bool)
    (media : List String) :
    normalizeModel text { model with enabled := enabled, media := media } =
      { normalizeModel text model with
        enabled := enabled, media := parseMedia text (joinMedia text media) } := by
  simp only [normalizeModel]

/-- The fallback that is written for a row that has one, under the alias of the call. -/
theorem fallback_kept_iff (settled : normalizeModel text row = row) (name : String) :
    (if trimSpace row.fallback = name then "" else trimSpace row.fallback) = row.fallback ↔
      row.fallback = "" ∨ row.fallback ≠ name := by
  have stored := congrArg (·.fallback) settled
  simp only [normalizeModel] at stored
  by_cases blank : row.fallback = ""
  · have trimmed : trimSpace "" = "" := by decide
    simp [blank, trimmed]
  · have trimmed : trimSpace row.fallback = row.fallback := by
      split at stored
      · exact absurd stored.symm blank
      · exact stored
    rw [trimmed]
    by_cases isName : row.fallback = name
    · rw [if_pos isName]
      simp [isName, eq_comm]
    · simp [isName]

end Registry

section Settling

/-- The words that `SaveModel` writes in lower case. -/
def storedWords : List String :=
  ["inherit", "off", "auto", "on", mediaImage, mediaVideo, mediaEmbed, mediaDecision, ""]

variable {text : TextLibrary} {media : List String} {model : Model}

/-- A list of media as `ParseMedia` makes it. -/
def IsMedia (media : List String) : Prop :=
  media.Nodup ∧ ∀ part ∈ media, part ∈ [mediaImage, mediaVideo, mediaEmbed, mediaDecision]

/-- The loop of `ParseMedia`. -/
def addMedia (kept : List String) (part : String) : List String :=
  if part ∈ [mediaImage, mediaVideo, mediaEmbed, mediaDecision] ∧ part ∉ kept then kept ++ [part]
  else kept

theorem IsMedia.add (isMedia : IsMedia media) (part : String) : IsMedia (addMedia media part) := by
  rw [addMedia]
  split
  · rename_i fits
    constructor
    · rw [List.nodup_append]
      refine ⟨isMedia.1, List.nodup_singleton part, ?_⟩
      intro old inside new isNew same
      rw [List.mem_singleton.mp isNew] at same
      rw [same] at inside
      exact fits.2 inside
    · intro old inside
      rcases List.mem_append.mp inside with before | isPart
      · exact isMedia.2 old before
      · rw [List.mem_singleton.mp isPart]
        exact fits.1
  · exact isMedia

theorem isMedia_foldl (parts : List String) (isMedia : IsMedia media) :
    IsMedia (parts.foldl addMedia media) := by
  induction parts generalizing media with
  | nil => exact isMedia
  | cons part rest ih => exact ih (isMedia.add part)

theorem isMedia_parseMedia (text : TextLibrary) (list : String) :
    IsMedia (parseMedia text list) :=
  isMedia_foldl _ ⟨List.nodup_nil, by simp⟩

/-- Media are taken over one after the other. -/
theorem foldl_addMedia (kept : List String) (isMedia : IsMedia (kept ++ media)) :
    media.foldl addMedia kept = kept ++ media := by
  induction media generalizing kept with
  | nil => simp
  | cons part rest ih =>
      have isPart := isMedia.2 part (by simp)
      have fresh : part ∉ kept := by
        intro inside
        have disjoint := (List.nodup_append.mp isMedia.1).2.2
        exact disjoint part inside part (by simp) rfl
      rw [List.foldl_cons, addMedia, if_pos ⟨isPart, fresh⟩, ih]
      · simp
      · simpa using isMedia

variable (words : ∀ word ∈ storedWords, text.toLower word = word)

theorem split_join {parts : List String} (nonempty : parts ≠ [])
    (noComma : ∀ part ∈ parts, ',' ∉ part.toList) : split (join parts ",") ',' = parts := by
  have chars : (join parts ",").toList = [','].intercalate (parts.map String.toList) := by
    rw [join, String.toList_intercalate]
    rfl
  have pieces : ([','].intercalate (parts.map String.toList)).splitOn ',' =
      parts.map String.toList := by
    apply List.splitOn_intercalate
    · intro piece inside
      rcases List.mem_map.mp inside with ⟨part, listed, rfl⟩
      exact noComma part listed
    · simpa using nonempty
  rw [split, chars, pieces, List.map_map]
  simp

include words in
/-- Media that are joined are read back. -/
theorem parseMedia_join (isMedia : IsMedia media) : parseMedia text (join media ",") = media := by
  by_cases noMedia : media = []
  · have blank : text.toLower "" = "" := words "" (by decide)
    have parts : (split (join [] ",") ',').map (fun part => text.toLower (trimSpace part)) =
        [text.toLower ""] := rfl
    rw [noMedia, parseMedia, parts, blank]
    decide
  · have noComma : ∀ part ∈ media, ',' ∉ part.toList := by
      intro part inside
      have isWord := isMedia.2 part inside
      simp only [List.mem_cons, List.not_mem_nil, or_false] at isWord
      rcases isWord with rfl | rfl | rfl | rfl <;> decide
    have parts : media.map (fun part => text.toLower (trimSpace part)) = media := by
      conv_rhs => rw [← List.map_id media]
      apply List.map_congr_left
      intro part inside
      have isWord := isMedia.2 part inside
      simp only [List.mem_cons, List.not_mem_nil, or_false] at isWord
      have trimmed : trimSpace part = part := by
        rcases isWord with rfl | rfl | rfl | rfl <;> decide
      have stored : part ∈ storedWords := by
        rcases isWord with rfl | rfl | rfl | rfl <;> decide
      rw [trimmed, words part stored]
      rfl
    rw [parseMedia, split_join noMedia noComma, parts]
    exact foldl_addMedia [] isMedia

include words in
theorem parseMedia_joinMedia (list : String) :
    parseMedia text (joinMedia text (parseMedia text list)) = parseMedia text list := by
  have isMedia := isMedia_parseMedia text list
  rw [joinMedia, parseMedia_join words isMedia, parseMedia_join words isMedia]

/-- A model that is written as it is. -/
theorem settled_of_fields (policy : model.lbPolicy ≠ "")
    (mode : model.promptCache ∈ ["inherit", "off", "auto", "on"])
    (sameMode : text.toLower (trimSpace model.promptCache) = model.promptCache)
    (name : model.upstreamName = "" → model.aliasName = "")
    (trimmed : trimSpace model.fallback = model.fallback)
    (fallback : model.fallback = model.aliasName → model.fallback = "")
    (media : parseMedia text (joinMedia text model.media) = model.media)
    (share : model.hubNodeID ≠ "" → model.hubShare = false) :
    Registry.normalizeModel text model = model := by
  have isName : (if model.upstreamName = "" then model.aliasName else model.upstreamName) =
      model.upstreamName := by
    split
    · rename_i blank
      rw [name blank, blank]
    · rfl
  have isFallback : (if model.fallback = model.aliasName then "" else model.fallback) =
      model.fallback := by
    split
    · rename_i isAlias
      exact (fallback isAlias).symm
    · rfl
  have isShare : (if model.hubNodeID ≠ "" then false else model.hubShare) = model.hubShare := by
    split
    · rename_i hasNode
      exact (share hasNode).symm
    · rfl
  simp only [Registry.normalizeModel, sameMode, if_pos mode, if_neg policy, isName, trimmed,
    isFallback, media, isShare]

include words in
/-- What is written is written again without a change. -/
theorem normalizeModel_normalizeModel (model : Model) :
    Registry.normalizeModel text (Registry.normalizeModel text model) =
      Registry.normalizeModel text model := by
  have mode : (Registry.normalizeModel text model).promptCache ∈
      ["inherit", "off", "auto", "on"] := by
    simp only [Registry.normalizeModel]
    split
    · assumption
    · decide
  apply settled_of_fields
  · simp only [Registry.normalizeModel]
    split
    · decide
    · assumption
  · exact mode
  · generalize (Registry.normalizeModel text model).promptCache = written at mode
    simp only [List.mem_cons, List.not_mem_nil, or_false] at mode
    have trimmed : trimSpace written = written := by
      rcases mode with rfl | rfl | rfl | rfl <;> decide
    have stored : written ∈ storedWords := by
      rcases mode with rfl | rfl | rfl | rfl <;> decide
    rw [trimmed, words written stored]
  · simp only [Registry.normalizeModel]
    split
    · exact id
    · rename_i named
      exact fun blank => absurd blank named
  · simp only [Registry.normalizeModel]
    split
    · decide
    · exact trimSpace_trimSpace _
  · simp only [Registry.normalizeModel]
    split
    · exact fun _ => rfl
    · rename_i other
      exact fun isAlias => absurd isAlias other
  · simp only [Registry.normalizeModel]
    exact parseMedia_joinMedia words _
  · simp only [Registry.normalizeModel]
    intro hasNode
    rw [if_pos hasNode]

end Settling

/-- The models of a store as `SaveModel` writes them. -/
structure SavedModels (text : TextLibrary) where
  registry : Registry
  settled : ∀ model ∈ registry.models.models, Registry.normalizeModel text model = model
  named : ∀ model ∈ registry.models.models, model.aliasName ≠ ""

section Keeping

variable {text : TextLibrary} {registry : Registry} {model row old : Model}

/-- Other backends are written as they are. -/
theorem settled_with_backendIds (settled : Registry.normalizeModel text row = row) (id : ModelId)
    (ids : List BackendId) :
    Registry.normalizeModel text { row with id := id, backendIds := ids } =
      { row with id := id, backendIds := ids } := by
  have moved : Registry.normalizeModel text { row with id := id, backendIds := ids } =
      { Registry.normalizeModel text row with id := id, backendIds := ids } := by
    simp only [Registry.normalizeModel]
  rw [moved, settled]

theorem of_mem_bindBackends_row {id : ModelId} {ids : List BackendId}
    (listed : row ∈ (registry.bindBackends id ids).1.models.models) :
    ∃ old ∈ registry.models.models, row = old ∨
      old.id = id ∧ ∃ bound, row = { old with backendIds := bound } := by
  rcases List.mem_map.mp listed with ⟨old, inside, rfl⟩
  refine ⟨old, inside, ?_⟩
  by_cases isRow : old.id = id
  · rw [if_pos isRow]
    exact Or.inr ⟨isRow, _, rfl⟩
  · rw [if_neg isRow]
    exact Or.inl rfl

/-- A row after the first statement of a save is another one, or the row that is written. -/
theorem mem_of_written {written : Model} {next : Registry} {id : ModelId}
    (writes : (if written.id = 0 then
        (registry.insertModel written).map fun next => (next, registry.nextModel)
      else (registry.updateModel written).map fun next => (next, written.id)) = some (next, id)) :
    ∀ old ∈ next.models.models, (old ∈ registry.models.models ∧ old.id ≠ id) ∨
      old = { written with id := id } := by
  intro old inside
  split at writes
  · rcases Option.map_eq_some_iff.mp writes with ⟨inserted, inserts, same⟩
    cases same
    rw [Registry.insertModel] at inserts
    split at inserts
    · cases inserts
      rcases List.mem_append.mp inside with before | isNew
      · exact Or.inl ⟨before, Nat.ne_of_lt (registry.models_id_lt old before)⟩
      · exact Or.inr (List.mem_singleton.mp isNew)
    · cases inserts
  · rcases Option.map_eq_some_iff.mp writes with ⟨updated, updates, same⟩
    cases same
    rw [Registry.updateModel] at updates
    split at updates
    · split at updates
      · cases updates
        rcases mem_overwrite inside with ⟨isRow, _⟩ | before
        · exact Or.inr isRow
        · exact Or.inl before
      · cases updates
    · rename_i missing
      cases updates
      refine Or.inl ⟨inside, ?_⟩
      intro isRow
      exact missing (List.mem_map.mpr ⟨old, inside, isRow⟩)

/-- A row after a save is an old one, or what is written, with the backends that were bound. -/
theorem of_mem_saveModel_row (listed : row ∈ (registry.saveModel text model).1.models.models) :
    row ∈ registry.models.models ∨ (registry.aliasTaken model.aliasName 0 model.id = false ∧
      ∃ id ids, row = { Registry.normalizeModel text model with id := id, backendIds := ids }) := by
  simp only [Registry.saveModel] at listed
  split at listed
  · exact Or.inl listed
  · rename_i notTaken
    have free : registry.aliasTaken model.aliasName 0 model.id = false :=
      Bool.eq_false_of_not_eq_true notTaken
    split at listed
    · exact Or.inl listed
    · rename_i next id written
      have rows := mem_of_written written
      rcases of_mem_bindBackends_row listed with ⟨old, inside, isOld | ⟨isRow, ids, isBound⟩⟩
      · rw [isOld]
        rcases rows old inside with before | isWritten
        · exact Or.inl before.1
        · exact Or.inr ⟨free, id, _, isWritten⟩
      · rcases rows old inside with before | isWritten
        · exact absurd isRow before.2
        · refine Or.inr ⟨free, id, ids, ?_⟩
          rw [isBound, isWritten]

/-- A save keeps the models so. -/
def SavedModels.save (words : ∀ word ∈ storedWords, text.toLower word = word)
    (store : SavedModels text) (model : Model) : SavedModels text where
  registry := (store.registry.saveModel text model).1
  settled := by
    intro row listed
    rcases of_mem_saveModel_row listed with before | ⟨_, id, ids, rfl⟩
    · exact store.settled row before
    · exact settled_with_backendIds (normalizeModel_normalizeModel words model) id ids
  named := by
    intro row listed
    rcases of_mem_saveModel_row listed with before | ⟨free, id, ids, rfl⟩
    · exact store.named row before
    · intro blank
      change model.aliasName = "" at blank
      rw [blank] at free
      exact absurd free (by simp [Registry.aliasTaken, show trimSpace "" = "" by decide])

/-- So does a deletion, which takes fallbacks away. -/
def SavedModels.delete (store : SavedModels text) (id : ModelId) : SavedModels text where
  registry := store.registry.deleteModel id
  settled := by
    intro row listed
    rcases List.mem_map.mp listed with ⟨old, inside, rfl⟩
    have settled := store.settled old (List.mem_of_mem_filter inside)
    split
    · have cleared : Registry.normalizeModel text { old with fallback := "" } =
          { Registry.normalizeModel text old with
            fallback := if trimSpace "" = old.aliasName then "" else trimSpace "" } := by
        simp only [Registry.normalizeModel]
      rw [cleared, settled]
      simp [show trimSpace "" = "" by decide]
    · exact settled
  named := by
    intro row listed
    rcases List.mem_map.mp listed with ⟨old, inside, rfl⟩
    have named := store.named old (List.mem_of_mem_filter inside)
    split
    · exact named
    · exact named

end Keeping

end MikroLLM.Store
