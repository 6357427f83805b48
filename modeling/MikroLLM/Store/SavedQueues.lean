import MikroLLM.Store.Registry

/-!
# Queues as they are saved

What `SaveQueue` leaves for `GetQueue`: the queue of the draft under its id, and
every other queue as it was.
-/

namespace MikroLLM.Store

open Domain Go Library

/-- The extra aliases that `GetQueue` reads. -/
def QueueTables.extrasOf (tables : QueueTables) (id : QueueId) : List String :=
  ((tables.aliases.filter (·.2 = id)).map (·.1)).insertionSort (· ≤ ·)

namespace QueueDraft

/-- The queue that a draft describes. -/
def queue (draft : QueueDraft) (id : QueueId) (extras : List String) : Queue where
  id := id
  name := trimSpace draft.name
  aliasName := trimSpace draft.aliasName
  enabled := draft.enabled
  overflowAfter := max draft.overflowAfter 0
  overflowAlias := trimSpace draft.overflowAlias
  maxWaitMS := draft.maxWaitMS
  steps := draft.steps.zipIdx.filterMap Registry.draftStep
  extraAliases := extras

/-- The row of the draft: its own, or the next one. -/
def rowId (draft : QueueDraft) (registry : Registry) : QueueId :=
  if draft.id = 0 then registry.nextQueue else draft.id

/-- The draft has names, and its alias is free. -/
def Admitted (draft : QueueDraft) (registry : Registry) : Prop :=
  trimSpace draft.name ≠ "" ∧ trimSpace draft.aliasName ≠ "" ∧
    registry.aliasTaken (trimSpace draft.aliasName) draft.id 0 = false

/-- A draft of a new queue or of one that is there. -/
def Known (draft : QueueDraft) (registry : Registry) : Prop :=
  draft.id = 0 ∨ draft.id ∈ registry.queues.queues.map (·.id)

end QueueDraft

/-- What a save of a draft changes. -/
structure SavesQueue (registry saved : Registry) (draft : QueueDraft) (id : QueueId) : Prop where
  models : saved.models = registry.models
  aliases : saved.queues.aliases = registry.queues.aliases
  rows : ∀ row, row.id ≠ id → (row ∈ saved.queues.queues ↔ row ∈ registry.queues.queues)
  found : saved.queues.getQueue id = some (draft.queue id (registry.queues.extrasOf id))
  others : ∀ other, other ≠ id → saved.queues.getQueue other = registry.queues.getQueue other

section Steps

variable {drafts : List (String × ℤ)} {id other : QueueId}

theorem draftStep_pos {draft : (String × ℤ) × ℕ} {step : QueueStep}
    (isStep : Registry.draftStep draft = some step) :
    step.pos = draft.2 ∧ 0 < step.maxConcurrent := by
  rw [Registry.draftStep] at isStep
  split at isStep
  · exact nomatch isStep
  · cases isStep
    refine ⟨rfl, ?_⟩
    change (0 : ℤ) < if draft.1.2 ≤ 0 then 1 else draft.1.2
    split <;> omega

/-- The steps are read in the order in which they were written. -/
theorem loaded_steps (drafts : List (String × ℤ)) :
    ((drafts.zipIdx.filterMap Registry.draftStep).insertionSort (·.pos ≤ ·.pos)).map
        (fun step => { step with
          maxConcurrent := if step.maxConcurrent ≤ 0 then 1 else step.maxConcurrent }) =
      drafts.zipIdx.filterMap Registry.draftStep := by
  have ordered : (drafts.zipIdx.filterMap Registry.draftStep).Pairwise (·.pos ≤ ·.pos) := by
    rw [List.pairwise_filterMap, List.pairwise_iff_getElem]
    intro first second firstIn secondIn before step isStep later isLater
    rw [(draftStep_pos isStep).1, (draftStep_pos isLater).1, List.getElem_zipIdx,
      List.getElem_zipIdx]
    simp only
    omega
  rw [ordered.insertionSort_eq]
  conv_rhs => rw [← List.map_id (drafts.zipIdx.filterMap Registry.draftStep)]
  apply List.map_congr_left
  intro step inside
  rcases List.mem_filterMap.mp inside with ⟨draft, _, isStep⟩
  have positive := (draftStep_pos isStep).2
  rw [if_neg (by omega)]
  rfl

end Steps

section Saving

variable {registry next saved : Registry} {draft : QueueDraft} {id : QueueId}

/-- What `GetQueue` reads of the queue: its row, its steps and its extra aliases. -/
theorem getQueue_eq (tables : QueueTables) (id : QueueId) :
    tables.getQueue id = (tables.queues.find? (·.id = id)).map fun row =>
      { id := id
        name := row.name
        aliasName := row.aliasName
        enabled := row.enabled
        overflowAfter := row.overflowAfter
        overflowAlias := row.overflowAlias
        maxWaitMS := row.maxWaitMS
        steps :=
          (((tables.steps.filter (·.1 = id)).map (·.2)).insertionSort (·.pos ≤ ·.pos)).map
            fun step => { step with
              maxConcurrent := if step.maxConcurrent ≤ 0 then 1 else step.maxConcurrent }
        extraAliases := tables.extrasOf id } := by
  rw [QueueTables.getQueue]
  cases found : tables.queues.find? (·.id = id) with
  | none => rfl
  | some row =>
      have sameId : row.id = id := by simpa using List.find?_some found
      rw [Option.map_some, Option.map_some, QueueTables.loadQueueKids, sameId]
      rfl

/-- The steps of a queue that is there are replaced, and nothing fails. -/
theorem replaceSteps_of_mem (present : id ∈ next.queues.queues.map (·.id))
    (drafts : List (String × ℤ)) :
    next.replaceSteps id drafts = ((next.replaceSteps id drafts).1, true) ∧
      (next.replaceSteps id drafts).1.queues.steps = next.queues.steps.filter (·.1 ≠ id) ++
        (drafts.zipIdx.filterMap Registry.draftStep).map fun step => (id, step) := by
  rw [Registry.replaceSteps, if_pos present]
  exact ⟨rfl, rfl⟩

/-- The steps of a save are those of the draft, for the queue that is saved. -/
theorem savesQueue_of_row (models : next.models = registry.models)
    (aliases : next.queues.aliases = registry.queues.aliases)
    (steps : next.queues.steps = registry.queues.steps)
    (rows : ∀ row, row.id ≠ id → (row ∈ next.queues.queues ↔ row ∈ registry.queues.queues))
    (written : next.queues.queues.find? (·.id = id) = some { draft.row with id := id })
    (kept : ∀ other, other ≠ id → next.queues.queues.find? (·.id = other) =
      registry.queues.queues.find? (·.id = other)) :
    ∃ saved, next.replaceSteps id draft.steps = (saved, true) ∧
      SavesQueue registry saved draft id := by
  have present : id ∈ next.queues.queues.map (·.id) :=
    List.mem_map.mpr ⟨_, List.mem_of_find?_eq_some written, rfl⟩
  rcases Registry.replaceSteps_spec next id draft.steps with ⟨sameModels, sameRows, sameAliases⟩
  rcases replaceSteps_of_mem present draft.steps with ⟨succeeds, newSteps⟩
  refine ⟨(next.replaceSteps id draft.steps).1, by rw [← succeeds], sameModels.trans models,
    sameAliases.trans aliases, ?_, ?_, ?_⟩
  · rw [sameRows]
    exact rows
  · have stepsOf : (((next.replaceSteps id draft.steps).1.queues.steps.filter (·.1 = id)).map
        (·.2)) = draft.steps.zipIdx.filterMap Registry.draftStep := by
      rw [newSteps, List.filter_append, List.filter_filter]
      have none : (next.queues.steps.filter fun step => decide (step.1 = id) &&
          decide (step.1 ≠ id)) = [] := by
        rw [List.filter_eq_nil_iff]
        intro step _
        simp
      rw [none, List.nil_append, List.filter_map]
      simp [Function.comp_def]
    rw [getQueue_eq, stepsOf, loaded_steps, sameRows, written, Option.map_some,
      QueueTables.extrasOf, sameAliases, aliases]
    rfl
  · intro other differs
    have stepsOf : (next.replaceSteps id draft.steps).1.queues.steps.filter (·.1 = other) =
        registry.queues.steps.filter (·.1 = other) := by
      rw [newSteps, steps, List.filter_append, List.filter_filter]
      have others : (registry.queues.steps.filter fun step => decide (step.1 = other) &&
          decide (step.1 ≠ id)) = registry.queues.steps.filter (·.1 = other) := by
        apply List.filter_congr
        intro step _
        by_cases isOther : step.1 = other
        · simp [isOther, differs]
        · simp [isOther]
      have none : ((draft.steps.zipIdx.filterMap Registry.draftStep).map fun step =>
          (id, step)).filter (·.1 = other) = [] := by
        rw [List.filter_eq_nil_iff]
        intro step inside
        rcases List.mem_map.mp inside with ⟨_, _, rfl⟩
        simpa using Ne.symm differs
      rw [others, none, List.append_nil]
    rw [getQueue_eq, getQueue_eq, stepsOf, sameRows, kept other differs, QueueTables.extrasOf,
      QueueTables.extrasOf, sameAliases, aliases]

theorem SavesQueue.extrasOf_eq (saves : SavesQueue registry saved draft id) :
    saved.queues.extrasOf id = registry.queues.extrasOf id := by
  rw [QueueTables.extrasOf, saves.aliases]
  rfl

/-- The queue that was saved, after its extra aliases have changed. -/
theorem SavesQueue.getQueue_eq (saves : SavesQueue registry saved draft id)
    (queues : next.queues.queues = saved.queues.queues)
    (steps : next.queues.steps = saved.queues.steps) :
    next.queues.getQueue id = some (draft.queue id (next.queues.extrasOf id)) := by
  have found := saves.found
  rw [Store.getQueue_eq, Option.map_eq_some_iff] at found
  rcases found with ⟨row, rowFound, isQueue⟩
  rw [Store.getQueue_eq, queues, steps, rowFound, Option.map_some]
  exact congrArg (fun queue => some { queue with extraAliases := next.queues.extrasOf id }) isQueue

/-- An alias that is taken by another queue or by a model. -/
theorem aliasTaken_eq_true_iff {name : String} {exceptModel : ModelId} :
    registry.aliasTaken name id exceptModel = true ↔
      trimSpace name = "" ∨
        (∃ model ∈ registry.models.models,
          model.aliasName = trimSpace name ∧ model.id ≠ exceptModel) ∨
        (∃ row ∈ registry.queues.queues, row.aliasName = trimSpace name ∧ row.id ≠ id) ∨
        ∃ entry ∈ registry.queues.aliases, entry.1 = trimSpace name ∧ entry.2 ≠ id := by
  simp [Registry.aliasTaken, or_assoc]

/-- A save of a queue takes no alias from itself. -/
theorem SavesQueue.aliasTaken_eq (saves : SavesQueue registry saved draft id) (name : String) :
    saved.aliasTaken name id 0 = registry.aliasTaken name id 0 := by
  rw [Bool.eq_iff_iff, aliasTaken_eq_true_iff, aliasTaken_eq_true_iff, saves.models, saves.aliases]
  have sameRows : (∃ row ∈ saved.queues.queues, row.aliasName = trimSpace name ∧ row.id ≠ id) ↔
      ∃ row ∈ registry.queues.queues, row.aliasName = trimSpace name ∧ row.id ≠ id := by
    constructor
    · rintro ⟨row, inside, isAlias, other⟩
      exact ⟨row, (saves.rows row other).mp inside, isAlias, other⟩
    · rintro ⟨row, inside, isAlias, other⟩
      exact ⟨row, (saves.rows row other).mpr inside, isAlias, other⟩
  rw [sameRows]

/-- The alias of an admitted draft is free among the rows. -/
theorem QueueDraft.Admitted.free (admitted : draft.Admitted registry) :
    ∀ old ∈ registry.queues.queues, old.id ≠ draft.id →
      old.aliasName ≠ trimSpace draft.aliasName := by
  intro old inside other isAlias
  have taken : registry.aliasTaken (trimSpace draft.aliasName) draft.id 0 = true := by
    rw [aliasTaken_eq_true_iff, trimSpace_trimSpace]
    exact Or.inr (Or.inr (Or.inl ⟨old, inside, isAlias, other⟩))
  rw [admitted.2.2] at taken
  exact nomatch taken

/-- The new row of a draft. -/
theorem insertQueue_admitted (admitted : draft.Admitted registry) (isNew : draft.id = 0) :
    ∃ next, registry.insertQueue draft.row = some next ∧ next.models = registry.models ∧
      next.queues.aliases = registry.queues.aliases ∧ next.queues.steps = registry.queues.steps ∧
      next.queues.queues =
        registry.queues.queues ++ [{ draft.row with id := registry.nextQueue }] := by
  have free : ∀ old ∈ registry.queues.queues, old.aliasName ≠ draft.row.aliasName := by
    intro old inside
    apply admitted.free old inside
    rw [isNew]
    exact Nat.ne_of_gt (registry.queues_id_pos old inside)
  rw [Registry.insertQueue, dif_pos free]
  exact ⟨_, rfl, rfl, rfl, rfl, rfl⟩

/-- The row of a draft that is there. -/
theorem updateQueue_admitted (admitted : draft.Admitted registry)
    (present : draft.id ∈ registry.queues.queues.map (·.id)) :
    ∃ next, registry.updateQueue draft.row = some next ∧ next.models = registry.models ∧
      next.queues.aliases = registry.queues.aliases ∧ next.queues.steps = registry.queues.steps ∧
      next.queues.queues = overwrite (·.id) draft.row registry.queues.queues := by
  have isRow : draft.row.id ∈ registry.queues.queues.map (·.id) := present
  have free : ∀ old ∈ registry.queues.queues, old.id ≠ draft.row.id →
      old.aliasName ≠ draft.row.aliasName := admitted.free
  rw [Registry.updateQueue, if_pos isRow, dif_pos free]
  exact ⟨_, rfl, rfl, rfl, rfl, rfl⟩

theorem savesQueue_inserted (models : next.models = registry.models)
    (aliases : next.queues.aliases = registry.queues.aliases)
    (steps : next.queues.steps = registry.queues.steps)
    (rows : next.queues.queues =
      registry.queues.queues ++ [{ draft.row with id := registry.nextQueue }]) :
    ∃ saved, next.replaceSteps registry.nextQueue draft.steps = (saved, true) ∧
      SavesQueue registry saved draft registry.nextQueue := by
  apply savesQueue_of_row models aliases steps
  · intro row other
    rw [rows, List.mem_append, List.mem_singleton]
    constructor
    · rintro (old | isRow)
      · exact old
      · exact absurd (congrArg (·.id) isRow) other
    · exact Or.inl
  · rw [rows, List.find?_append]
    have absent : registry.queues.queues.find? (·.id = registry.nextQueue) = none := by
      rw [List.find?_eq_none]
      intro old inside
      simpa using Nat.ne_of_lt (registry.queues_id_lt old inside)
    rw [absent]
    simp
  · intro other differs
    rw [rows, List.find?_append]
    have isOther : ¬registry.nextQueue = other := fun same => differs same.symm
    simp [isOther]

theorem savesQueue_updated (present : draft.id ∈ registry.queues.queues.map (·.id))
    (models : next.models = registry.models)
    (aliases : next.queues.aliases = registry.queues.aliases)
    (steps : next.queues.steps = registry.queues.steps)
    (rows : next.queues.queues = overwrite (·.id) draft.row registry.queues.queues) :
    ∃ saved, next.replaceSteps draft.id draft.steps = (saved, true) ∧
      SavesQueue registry saved draft draft.id := by
  apply savesQueue_of_row models aliases steps
  · intro row other
    rw [rows]
    constructor
    · intro listed
      rcases mem_overwrite listed with ⟨isRow, _⟩ | ⟨old, _⟩
      · exact absurd (congrArg (·.id) isRow) other
      · exact old
    · intro inside
      exact List.mem_map.mpr ⟨row, inside, if_neg other⟩
  · rw [rows]
    exact @find?_overwrite_self _ _ _ (·.id) draft.row _ present
  · intro other differs
    rw [rows]
    exact find?_overwrite_other differs

/-- An admitted draft of a known queue is saved. -/
theorem saveQueue_admitted (admitted : draft.Admitted registry) (known : draft.Known registry) :
    ∃ saved, registry.saveQueue draft = (saved, .ok (draft.rowId registry)) ∧
      SavesQueue registry saved draft (draft.rowId registry) := by
  rcases admitted with ⟨named, hasAlias, free⟩
  have admitted : draft.Admitted registry := ⟨named, hasAlias, free⟩
  have notBlank : ¬(draft.row.name = "" ∨ draft.row.aliasName = "") := by
    rintro (blank | blank)
    · exact named blank
    · exact hasAlias blank
  have notTaken : ¬registry.aliasTaken draft.row.aliasName draft.row.id 0 = true :=
    Bool.not_eq_true _ ▸ free
  simp only [Registry.saveQueue]
  rw [if_neg notBlank, if_neg notTaken]
  by_cases isNew : draft.id = 0
  · rcases insertQueue_admitted admitted isNew with ⟨next, inserts, models, aliases, steps, rows⟩
    rcases savesQueue_inserted models aliases steps rows with ⟨saved, replaced, saves⟩
    have isRow : draft.rowId registry = registry.nextQueue := if_pos isNew
    have rowIsNew : draft.row.id = 0 := isNew
    rw [isRow, if_pos rowIsNew, inserts, Option.map_some]
    simp only [replaced, if_true]
    exact ⟨saved, rfl, saves⟩
  · have present := known.resolve_left isNew
    rcases updateQueue_admitted admitted present with ⟨next, updates, models, aliases, steps, rows⟩
    rcases savesQueue_updated present models aliases steps rows with ⟨saved, replaced, saves⟩
    have isRow : draft.rowId registry = draft.id := if_neg isNew
    have rowNotNew : ¬draft.row.id = 0 := isNew
    have sameId : draft.row.id = draft.id := rfl
    rw [isRow, if_neg rowNotNew, updates, Option.map_some, sameId]
    simp only [replaced, if_true]
    exact ⟨saved, rfl, saves⟩

/-- A draft that is not admitted leaves the store as it is. -/
theorem saveQueue_refused (refused : ¬draft.Admitted registry) :
    ∃ error, registry.saveQueue draft = (registry, .error error) := by
  simp only [Registry.saveQueue]
  split
  · exact ⟨_, rfl⟩
  · rename_i notBlank
    rw [not_or] at notBlank
    split
    · exact ⟨_, rfl⟩
    · rename_i notTaken
      exact absurd ⟨notBlank.1, notBlank.2, Bool.eq_false_of_not_eq_true notTaken⟩ refused

end Saving

/-- The registry with names added to a queue as extra aliases. -/
structure AddsAliases (registry : Registry) (id : QueueId) (names : List String)
    (next : Registry) : Prop where
  models : next.models = registry.models
  queues : next.queues.queues = registry.queues.queues
  steps : next.queues.steps = registry.queues.steps
  aliases : next.queues.aliases = registry.queues.aliases ++ names.map fun name => (name, id)

/-- A name that no model and no queue has, except for the row of the queue itself. -/
def Addable (registry : Registry) (id : QueueId) (name : String) : Prop :=
  registry.aliasTaken name id 0 = false ∧ (name, id) ∉ registry.queues.aliases

/-- Names that can be added one after the other. -/
def AllAddable (registry : Registry) (id : QueueId) (names : List String) : Prop :=
  names.Nodup ∧ ∀ name ∈ names, Addable registry id name

section Adding

variable {registry next last : Registry} {id : QueueId} {name other : String}
  {names rest : List String}

/-- A name can be added after the save of the queue exactly when it could be before. -/
theorem SavesQueue.addable_iff {draft : QueueDraft} {saved : Registry}
    (saves : SavesQueue registry saved draft id) :
    Addable saved id name ↔ Addable registry id name := by
  rw [Addable, Addable, saves.aliasTaken_eq, saves.aliases]

theorem SavesQueue.allAddable_iff {draft : QueueDraft} {saved : Registry}
    (saves : SavesQueue registry saved draft id) :
    AllAddable saved id names ↔ AllAddable registry id names := by
  simp only [AllAddable, saves.addable_iff]

theorem AddsAliases.refl (registry : Registry) (id : QueueId) : AddsAliases registry id [] registry :=
  ⟨rfl, rfl, rfl, (List.append_nil _).symm⟩

theorem AddsAliases.trans (adds : AddsAliases registry id names next)
    (more : AddsAliases next id rest last) : AddsAliases registry id (names ++ rest) last where
  models := more.models.trans adds.models
  queues := more.queues.trans adds.queues
  steps := more.steps.trans adds.steps
  aliases := by rw [more.aliases, adds.aliases, List.map_append, List.append_assoc]

/-- Another name stays addable, and it alone. -/
theorem AddsAliases.addable_iff (adds : AddsAliases registry id [name] next) :
    Addable next id other ↔ Addable registry id other ∧ other ≠ name := by
  have sameTaken : next.aliasTaken other id 0 = registry.aliasTaken other id 0 := by
    rw [Bool.eq_iff_iff, aliasTaken_eq_true_iff, aliasTaken_eq_true_iff, adds.models, adds.queues,
      adds.aliases]
    simp
  rw [Addable, Addable, sameTaken, adds.aliases]
  simp only [List.map_singleton, List.mem_append, List.mem_singleton, Prod.mk.injEq, and_true,
    not_or, and_assoc]

theorem AddsAliases.allAddable_iff (adds : AddsAliases registry id [name] next)
    (addable : Addable registry id name) :
    AllAddable registry id (name :: rest) ↔ AllAddable next id rest := by
  simp only [AllAddable, List.nodup_cons, List.forall_mem_cons, adds.addable_iff]
  constructor
  · rintro ⟨⟨fresh, distinct⟩, _, all⟩
    refine ⟨distinct, ?_⟩
    intro other inside
    exact ⟨all other inside, fun same => fresh (same ▸ inside)⟩
  · rintro ⟨distinct, all⟩
    refine ⟨⟨fun inside => (all name inside).2 rfl, distinct⟩, addable, ?_⟩
    intro other inside
    exact (all other inside).1

/-- A queue and its names other than the extra ones. -/
theorem AddsAliases.getQueue_other (adds : AddsAliases registry id names next)
    {different : QueueId} (differs : different ≠ id) :
    next.queues.getQueue different = registry.queues.getQueue different := by
  have sameExtras : next.queues.extrasOf different = registry.queues.extrasOf different := by
    have none : (names.map fun name => (name, id)).filter (·.2 = different) = [] := by
      rw [List.filter_eq_nil_iff]
      intro entry inside
      rcases List.mem_map.mp inside with ⟨_, _, rfl⟩
      simpa using Ne.symm differs
    rw [QueueTables.extrasOf, adds.aliases, List.filter_append, none, List.append_nil]
    rfl
  rw [getQueue_eq, getQueue_eq, adds.queues, adds.steps, sameExtras]

theorem AddsAliases.extrasOf_perm (adds : AddsAliases registry id names next) :
    (next.queues.extrasOf id).Perm (registry.queues.extrasOf id ++ names) := by
  have all : (names.map fun name => (name, id)).filter (·.2 = id) =
      names.map fun name => (name, id) := by
    rw [List.filter_eq_self]
    intro entry inside
    rcases List.mem_map.mp inside with ⟨_, _, rfl⟩
    simp
  rw [QueueTables.extrasOf, QueueTables.extrasOf, adds.aliases, List.filter_append, all,
    List.map_append, List.map_map]
  refine (List.perm_insertionSort _ _).trans ?_
  have unnamed : names.map (Prod.fst ∘ fun name => (name, id)) = names := by
    simp [Function.comp_def]
  rw [unnamed]
  exact (List.perm_insertionSort _ _).symm.append_right names

theorem mem_extrasOf : name ∈ registry.queues.extrasOf id ↔ (name, id) ∈ registry.queues.aliases := by
  rw [QueueTables.extrasOf, List.mem_insertionSort]
  simp

theorem nodup_extrasOf (tables : QueueTables) (id : QueueId) : (tables.extrasOf id).Nodup := by
  rw [QueueTables.extrasOf, (List.perm_insertionSort _ _).nodup_iff]
  exact tables.aliases_nodup.sublist (List.filter_sublist.map _)

variable {queue : Queue}

/-- A trimmed name that is not the alias of the queue is added when it is addable. -/
theorem addQueueAlias_addable (found : registry.queues.getQueue id = some queue)
    (trimmed : trimSpace name = name) (named : name ≠ "") (notPrimary : queue.aliasName ≠ name)
    (addable : Addable registry id name) :
    ∃ next, registry.addQueueAlias id name = (next, .ok ()) ∧
      AddsAliases registry id [name] next := by
  rcases addable with ⟨notTaken, notListed⟩
  have free : ∀ entry ∈ registry.queues.aliases, entry.1 ≠ name := by
    rintro ⟨extra, owner⟩ inside isName
    have isExtra : extra = name := isName
    rw [isExtra] at inside
    by_cases isOwn : owner = id
    · rw [isOwn] at inside
      exact notListed inside
    · have taken : registry.aliasTaken name id 0 = true := by
        rw [aliasTaken_eq_true_iff, trimmed]
        exact Or.inr (Or.inr (Or.inr ⟨_, inside, rfl, isOwn⟩))
      rw [notTaken] at taken
      exact nomatch taken
  have owner : id ∈ registry.queues.queues.map (·.id) := by
    rw [getQueue_eq, Option.map_eq_some_iff] at found
    rcases found with ⟨row, rowFound, _⟩
    exact List.mem_map.mpr ⟨row, List.mem_of_find?_eq_some rowFound,
      by simpa using List.find?_some rowFound⟩
  simp only [Registry.addQueueAlias, trimmed]
  rw [if_neg named, notTaken, if_neg Bool.false_ne_true, found]
  simp only
  rw [if_neg notPrimary, Registry.insertQueueAlias, dif_pos free, dif_pos owner]
  exact ⟨_, rfl, rfl, rfl, rfl, rfl⟩

/-- A name that is not addable is refused, and the store stays as it is. -/
theorem addQueueAlias_not_addable (found : registry.queues.getQueue id = some queue)
    (trimmed : trimSpace name = name) (notPrimary : queue.aliasName ≠ name)
    (refused : ¬Addable registry id name) :
    ∃ error, registry.addQueueAlias id name = (registry, .error error) := by
  simp only [Registry.addQueueAlias, trimmed]
  split
  · exact ⟨_, rfl⟩
  · split
    · exact ⟨_, rfl⟩
    · rename_i notTaken
      have listed : (name, id) ∈ registry.queues.aliases := by
        by_contra notListed
        exact refused ⟨Bool.eq_false_of_not_eq_true notTaken, notListed⟩
      have occupied : ¬∀ entry ∈ registry.queues.aliases, entry.1 ≠ name :=
        fun free => free _ listed rfl
      rw [found]
      simp only
      rw [if_neg notPrimary, Registry.insertQueueAlias, dif_neg occupied]
      exact ⟨_, rfl⟩

/-- `DeleteQueueAlias` for each of the names. -/
def Registry.deleteQueueAliases (registry : Registry) (id : QueueId) (names : List String) :
    Registry :=
  names.foldl (fun registry name => registry.deleteQueueAlias id name) registry

theorem deleteQueueAliases_spec (registry : Registry) (id : QueueId) (names : List String) :
    (registry.deleteQueueAliases id names).queues.queues = registry.queues.queues ∧
      (registry.deleteQueueAliases id names).queues.steps = registry.queues.steps ∧
      (registry.deleteQueueAliases id names).queues.aliases =
        registry.queues.aliases.filter fun entry => !(entry.2 = id && entry.1 ∈ names) := by
  induction names generalizing registry with
  | nil => simp [Registry.deleteQueueAliases]
  | cons name rest ih =>
      rcases ih (registry.deleteQueueAlias id name) with ⟨queues, steps, aliases⟩
      refine ⟨queues, steps, ?_⟩
      refine aliases.trans ?_
      simp only [Registry.deleteQueueAlias, List.filter_filter]
      apply List.filter_congr
      intro entry _
      by_cases isOwn : entry.2 = id <;> by_cases isName : entry.1 = name <;> simp [isOwn, isName]

end Adding

end MikroLLM.Store
