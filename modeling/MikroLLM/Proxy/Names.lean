import MikroLLM.Library.Naming
import MikroLLM.Library.Runs
import MikroLLM.Queue.Lookup
import MikroLLM.Store.Registry

/-!
# What a name in a request resolves to

A request names a model alias or a queue, and a queue also answers to its extra
aliases, its name and the two forms of name and alias. The names are kept apart
by `AliasTaken`, which a save asks about the alias only: nothing is asked about
the name of a queue, and no save looks for the names and forms of other queues.
-/

namespace MikroLLM.Proxy

open Domain Store Go Library

open MikroLLM.Queue (lookup)

/-- What a name can resolve to. -/
inductive Entity
  | model (id : ModelId)
  | queue (id : QueueId)
  deriving DecidableEq

/-- The name of a queue and the forms of name and alias. -/
def formsOf (row : QueueRow) : List String :=
  [row.name, row.name ++ "-" ++ row.aliasName, row.name ++ "/" ++ row.aliasName]

/-- The strings that a client can send for an entity: the alias of a model as it is, and for a
queue every alias, name and form with any white space around it. -/
def Resolves (registry : Registry) (name : String) : Entity → Prop
  | .model id => ∃ model ∈ registry.models.models, model.id = id ∧ model.aliasName = name
  | .queue id => ∃ row ∈ registry.queues.queues, row.id = id ∧
      (row.aliasName = trimSpace name ∨ trimSpace name ∈ formsOf row ∨
        (trimSpace name, id) ∈ registry.queues.aliases)

/-- Where `forward` sends a request: queues come before models. -/
def route (registry : Registry) (name : String) : Option Entity :=
  match lookup registry.queues name with
  | some queue => some (.queue queue.id)
  | none => (registry.models.getModelByAlias name).map fun model => .model model.id

namespace Names

/-- The operations that give and take names. -/
inductive Action
  | saveModel (model : Model)
  | deleteModel (id : ModelId)
  | saveQueue (draft : QueueDraft)
  | deleteQueue (id : QueueId)
  | addQueueAlias (id : QueueId) (name : String)
  | deleteQueueAlias (id : QueueId) (name : String)
  | connectOllamaModel (name : String) (backendIds : List BackendId) (policy : String)
      (maxContext : ℤ)
  | connectHubModel (name nodeID nodeName : String) (maxContext : ℤ) (media : List String)
  | upsertHubAuto (nodeID nodeName upstream : String) (maxContext : ℤ) (media : List String)

/-- One operation. -/
def step (text : TextLibrary) (registry : Registry) : Action → Option Registry
  | .saveModel model => some (registry.saveModel text model).1
  | .deleteModel id => some (registry.deleteModel id)
  | .saveQueue draft => some (registry.saveQueue draft).1
  | .deleteQueue id => some (registry.deleteQueue id)
  | .addQueueAlias id name => some (registry.addQueueAlias id name).1
  | .deleteQueueAlias id name => some (registry.deleteQueueAlias id name)
  | .connectOllamaModel name backendIds policy maxContext =>
      some (registry.connectOllamaModel text name backendIds policy maxContext).1
  | .connectHubModel name nodeID nodeName maxContext media =>
      some (registry.connectHubModel text name nodeID nodeName maxContext media).1
  | .upsertHubAuto nodeID nodeName upstream maxContext media =>
      some (registry.upsertHubAuto text nodeID nodeName upstream maxContext media).1

/-- No queue has this name, or a form that reads like it. -/
def formsFree (registry : Registry) (name : String) : Bool :=
  registry.queues.queues.all fun row => trimSpace name ∉ formsOf row

/-- No model has one of these names, up to white space, and no other queue has one. -/
def namesFree (registry : Registry) (id : QueueId) (names : List String) : Bool :=
  names.all fun name =>
    (registry.models.models.all fun model => trimSpace model.aliasName ≠ name) &&
      ((registry.queues.queues.all fun row =>
        row.id = id || (row.aliasName ≠ name && name ∉ formsOf row)) &&
      registry.queues.aliases.all fun entry => entry.2 = id || entry.1 ≠ name)

/-- `SaveModel` writes no alias: it is taken, or there is no such row. -/
def modelRefused (registry : Registry) (model : Model) : Bool :=
  registry.aliasTaken model.aliasName 0 model.id ||
    (model.id ≠ 0 && model.id ∉ registry.models.models.map (·.id))

/-- `SaveQueue` writes no row: it has no name, its alias is taken, or there is no such row. -/
def queueRefused (registry : Registry) (draft : QueueDraft) : Bool :=
  trimSpace draft.name = "" || registry.aliasTaken draft.aliasName draft.id 0 ||
    (draft.id ≠ 0 && draft.id ∉ registry.queues.queues.map (·.id))

/-- A model that is saved takes no name or form of a queue. -/
def separatesModel (registry : Registry) (model : Model) : Bool :=
  modelRefused registry model || formsFree registry model.aliasName

/-- A model that is saved takes no name or form of a queue; a queue that is saved and an alias
that is added take no name that a model or another queue answers to. -/
def separates (text : TextLibrary) (registry : Registry) : Action → Bool
  | .saveModel model => separatesModel registry model
  | .saveQueue draft =>
      queueRefused registry draft ||
        namesFree registry draft.id (draft.row.aliasName :: formsOf draft.row)
  | .addQueueAlias id name =>
      registry.aliasTaken name id 0 || (registry.queues.getQueue id).isNone ||
        namesFree registry id [trimSpace name]
  | .connectOllamaModel name backendIds policy maxContext =>
      match registry.ollamaModel text name backendIds policy maxContext with
      | .ok model => separatesModel registry model
      | .error _ => true
  | .connectHubModel name nodeID nodeName maxContext media =>
      match registry.hubModel text name nodeID nodeName maxContext media with
      | .ok model => separatesModel registry model
      | .error _ => true
  | .upsertHubAuto nodeID nodeName upstream maxContext media =>
      match registry.hubAutoModel text nodeID nodeName upstream maxContext media with
      | .ok model => separatesModel registry model
      | .error _ => true
  | _ => true

section Steps

variable {text : TextLibrary} {registry : Registry}

/-- What `AliasTaken` answers no to. -/
theorem aliasTaken_eq_false {name : String} {exceptQueue : QueueId} {exceptModel : ModelId} :
    registry.aliasTaken name exceptQueue exceptModel = false ↔
      trimSpace name ≠ "" ∧
        (∀ model ∈ registry.models.models, model.aliasName = trimSpace name →
          model.id = exceptModel) ∧
        (∀ row ∈ registry.queues.queues, row.aliasName = trimSpace name → row.id = exceptQueue) ∧
        ∀ entry ∈ registry.queues.aliases, entry.1 = trimSpace name → entry.2 = exceptQueue := by
  simp [Registry.aliasTaken, and_assoc]

/-- The alias that `SaveModel` gives to a row. -/
theorem saveModel_gives {model : Model} (separate : separatesModel registry model = true) :
    ∃ thing, GivesTo thing (Resolves registry) (Resolves (registry.saveModel text model).1) := by
  rcases registry.saveModel_spec text model with ⟨queues, id, rows⟩
  refine ⟨.model id, ?_⟩
  intro name entity resolves
  cases entity with
  | queue queueId =>
      left
      simpa only [Resolves, queues] using resolves
  | model modelId =>
      rcases resolves with ⟨saved, listed, rfl, rfl⟩
      rcases rows saved listed with ⟨old, inside, sameId, sameAlias⟩ |
        ⟨isRow, alias', free, present, unique⟩
      · exact Or.inl ⟨old, inside, sameId, sameAlias⟩
      · refine Or.inr ⟨by rw [isRow], ?_⟩
        have notRefused : modelRefused registry model = false := by
          simp only [modelRefused, free, Bool.false_or, Bool.and_eq_false_iff, decide_eq_false_iff_not,
            not_not, ne_eq]
          exact present
        have formsFree : formsFree registry model.aliasName = true := by
          simpa [separatesModel, notRefused] using separate
        rcases aliasTaken_eq_false.mp free with ⟨_, _, noQueue, noAlias⟩
        rintro (oldId | oldId) oldResolves
        · rcases oldResolves with ⟨old, inside, rfl, oldAlias⟩
          rw [unique old inside (oldAlias.trans alias')]
        · rcases oldResolves with ⟨row, inside, rfl, named⟩
          have positive := registry.queues_id_pos row inside
          rw [alias'] at named
          rcases named with primary | form | extra
          · exact absurd (noQueue row inside primary) positive.ne'
          · simp only [Names.formsFree, List.all_eq_true, decide_eq_true_eq] at formsFree
            exact absurd form (formsFree row inside)
          · exact absurd (noAlias _ extra rfl) positive.ne'

/-- A name of a queue that is free is no name of anything else. -/
theorem only_of_namesFree {id : QueueId} {names : List String} {name : String}
    (free : namesFree registry id names = true) (inside : trimSpace name ∈ names) {entity : Entity}
    (resolves : Resolves registry name entity) : entity = .queue id := by
  simp only [namesFree, List.all_eq_true, Bool.and_eq_true, Bool.or_eq_true, decide_eq_true_eq,
    ne_eq] at free
  rcases free (trimSpace name) inside with ⟨noModel, noQueue, noAlias⟩
  cases entity with
  | model modelId =>
      rcases resolves with ⟨model, listed, _, rfl⟩
      exact absurd rfl (noModel model listed)
  | queue queueId =>
      rcases resolves with ⟨row, listed, rfl, named⟩
      rcases named with primary | form | extra
      · rcases noQueue row listed with same | ⟨other, _⟩
        · rw [same]
        · exact absurd primary other
      · rcases noQueue row listed with same | ⟨_, other⟩
        · rw [same]
        · exact absurd form other
      · rcases noAlias _ extra with same | other
        · simp only at same
          rw [same]
        · exact absurd rfl other

/-- The names that `SaveQueue` gives to a row. -/
theorem saveQueue_gives {draft : QueueDraft}
    (separate : separates text registry (.saveQueue draft) = true) :
    ∃ thing, GivesTo thing (Resolves registry) (Resolves (registry.saveQueue draft).1) := by
  rcases registry.saveQueue_spec draft with ⟨models, aliases, rows⟩
  refine ⟨.queue (if draft.id = 0 then registry.nextQueue else draft.id), ?_⟩
  intro name entity resolves
  cases entity with
  | model modelId =>
      left
      simpa only [Resolves, models] using resolves
  | queue queueId =>
      rcases resolves with ⟨saved, listed, rfl, named⟩
      rw [aliases] at named
      rcases rows saved listed with old | ⟨isRow, hasName, free, present⟩
      · exact Or.inl ⟨saved, old, rfl, named⟩
      · have notRefused : queueRefused registry draft = false := by
          have sameAlias : registry.aliasTaken draft.aliasName draft.id 0 =
              registry.aliasTaken draft.row.aliasName draft.id 0 := by
            simp [Registry.aliasTaken, QueueDraft.row]
          simp only [queueRefused, sameAlias, free, hasName, decide_false, Bool.false_or,
            Bool.and_eq_false_iff, decide_eq_false_iff_not, not_not, ne_eq]
          exact present
        have namesFree : namesFree registry draft.id
            (draft.row.aliasName :: formsOf draft.row) = true := by
          simpa [separates, notRefused] using separate
        have given : (trimSpace name ∈ draft.row.aliasName :: formsOf draft.row) ∨
            (trimSpace name, saved.id) ∈ registry.queues.aliases := by
          rw [isRow] at named
          rcases named with primary | form | extra
          · exact Or.inl (List.mem_cons.mpr (Or.inl primary.symm))
          · exact Or.inl (List.mem_cons_of_mem _ form)
          · rw [isRow]
            exact Or.inr extra
        rcases given with inside | extra
        · refine Or.inr ⟨by rw [isRow], ?_⟩
          intro old oldResolves
          have isQueue := only_of_namesFree namesFree inside oldResolves
          subst isQueue
          split
          · rename_i isNew
            rcases oldResolves with ⟨row, rowListed, sameId, _⟩
            have positive := registry.queues_id_pos row rowListed
            exact absurd (sameId.trans isNew) positive.ne'
          · rfl
        · left
          rcases List.mem_map.mp (registry.queues.aliases_owner _ extra) with
            ⟨row, rowListed, isOwner⟩
          exact ⟨row, rowListed, isOwner, Or.inr (Or.inr extra)⟩

/-- The alias that `AddQueueAlias` gives to a queue. -/
theorem addQueueAlias_gives {id : QueueId} {name : String}
    (separate : separates text registry (.addQueueAlias id name) = true) :
    GivesTo (.queue id) (Resolves registry) (Resolves (registry.addQueueAlias id name).1) := by
  rcases registry.addQueueAlias_spec id name with ⟨models, queues, aliases⟩
  intro sent entity resolves
  cases entity with
  | model modelId =>
      left
      simpa only [Resolves, models] using resolves
  | queue queueId =>
      rcases resolves with ⟨row, listed, rfl, named⟩
      rw [queues] at listed
      rcases named with primary | form | extra
      · exact Or.inl ⟨row, listed, rfl, Or.inl primary⟩
      · exact Or.inl ⟨row, listed, rfl, Or.inr (Or.inl form)⟩
      · rcases aliases _ extra with old | ⟨isNew, free, queue, found⟩
        · exact Or.inl ⟨row, listed, rfl, Or.inr (Or.inr old)⟩
        · right
          rw [Prod.mk.injEq] at isNew
          refine ⟨by rw [isNew.2], ?_⟩
          intro old oldResolves
          have sameAlias : registry.aliasTaken name id 0 = false := by
            simpa [Registry.aliasTaken] using free
          have namesFree : namesFree registry id [trimSpace name] = true := by
            simpa [separates, sameAlias, found] using separate
          exact only_of_namesFree namesFree (List.mem_singleton.mpr isNew.1) oldResolves

/-- The alias of the model that is made up and saved. -/
theorem saveMade_gives {made : Except SaveError Model}
    (separate : ∀ model, made = .ok model → separatesModel registry model = true) :
    ∃ thing, GivesTo thing (Resolves registry) (Resolves (registry.saveMade text made).1) := by
  cases made with
  | error refusal => exact ⟨.model 0, givesTo_of_subset _ fun _ _ => id⟩
  | ok model =>
      simp only [Registry.saveMade]
      exact saveModel_gives (separate model rfl)

/-- An operation gives names to one entity, and only names that no other entity has. -/
theorem step_gives {action : Action} {next : Registry}
    (separate : separates text registry action = true)
    (fires : step text registry action = some next) :
    ∃ thing, GivesTo thing (Resolves registry) (Resolves next) := by
  cases action with
  | saveModel model =>
      rw [step, Option.some.injEq] at fires
      subst fires
      exact saveModel_gives separate
  | deleteModel id =>
      rw [step, Option.some.injEq] at fires
      subst fires
      refine ⟨.model id, givesTo_of_subset _ ?_⟩
      rintro name (modelId | queueId) resolves
      · rcases resolves with ⟨model, listed, rfl, rfl⟩
        exact Registry.deleteModel_models listed
      · exact resolves
  | saveQueue draft =>
      rw [step, Option.some.injEq] at fires
      subst fires
      exact saveQueue_gives separate
  | deleteQueue id =>
      rw [step, Option.some.injEq] at fires
      subst fires
      refine ⟨.queue id, givesTo_of_subset _ ?_⟩
      rintro name (modelId | queueId) resolves
      · exact resolves
      · rcases resolves with ⟨row, listed, sameId, named⟩
        refine ⟨row, List.mem_of_mem_filter listed, sameId, ?_⟩
        exact named.imp_right (Or.imp_right List.mem_of_mem_filter)
  | addQueueAlias id name =>
      rw [step, Option.some.injEq] at fires
      subst fires
      exact ⟨.queue id, addQueueAlias_gives separate⟩
  | deleteQueueAlias id name =>
      rw [step, Option.some.injEq] at fires
      subst fires
      refine ⟨.queue id, givesTo_of_subset _ ?_⟩
      rintro sent (modelId | queueId) resolves
      · exact resolves
      · rcases resolves with ⟨row, listed, sameId, named⟩
        refine ⟨row, listed, sameId, ?_⟩
        exact named.imp_right (Or.imp_right List.mem_of_mem_filter)
  | connectOllamaModel name backendIds policy maxContext =>
      rw [step, Option.some.injEq] at fires
      subst fires
      apply saveMade_gives
      intro model made
      simpa only [separates, made] using separate
  | connectHubModel name nodeID nodeName maxContext media =>
      rw [step, Option.some.injEq] at fires
      subst fires
      apply saveMade_gives
      intro model made
      simpa only [separates, made] using separate
  | upsertHubAuto nodeID nodeName upstream maxContext media =>
      rw [step, Option.some.injEq] at fires
      subst fires
      apply saveMade_gives
      intro model made
      simpa only [separates, made] using separate

/-- `Lookup` answers with a queue that the name resolves to. -/
theorem resolves_of_lookup {tables : QueueTables} {name : String} {queue : Domain.Queue}
    (looked : lookup tables name = some queue) :
    ∃ row ∈ tables.queues, row.id = queue.id ∧
      (row.aliasName = trimSpace name ∨ trimSpace name ∈ formsOf row ∨
        (trimSpace name, queue.id) ∈ tables.aliases) := by
  have scanned : ∀ {found : Domain.Queue}, (tables.listQueues.find? fun queue =>
      queue.enabled && trimSpace name ∈ Queue.derivedNames queue) = some found →
      ∃ row ∈ tables.queues, row.id = found.id ∧
        (row.aliasName = trimSpace name ∨ trimSpace name ∈ formsOf row ∨
          (trimSpace name, found.id) ∈ tables.aliases) := by
    intro found scan
    rcases List.mem_map.mp (List.mem_of_find?_eq_some scan) with ⟨row, listed, rfl⟩
    have form := List.find?_some scan
    simp only [Bool.and_eq_true, decide_eq_true_eq] at form
    exact ⟨row, (List.mem_insertionSort _).mp listed, rfl, Or.inr (Or.inl form.2)⟩
  unfold lookup at looked
  simp only at looked
  split at looked
  · cases looked
  · split at looked
    · rename_i byAlias found
      split at looked
      · rw [Option.some.injEq] at looked
        subst looked
        rw [QueueTables.getQueueByAlias_eq_some] at found
        rcases found with ⟨row, ⟨listed, named⟩, rfl⟩
        simp only [trimSpace_trimSpace] at named
        refine ⟨row, listed, rfl, ?_⟩
        rcases named with primary | ⟨_, extra⟩
        · exact Or.inl primary
        · exact Or.inr (Or.inr extra)
      · exact scanned looked
    · exact scanned looked

/-- A request goes to something that its name resolves to. -/
theorem resolves_of_route {name : String} {entity : Entity}
    (routed : route registry name = some entity) : Resolves registry name entity := by
  unfold route at routed
  split at routed
  · rename_i queue looked
    cases routed
    exact resolves_of_lookup looked
  · rcases Option.map_eq_some_iff.mp routed with ⟨model, found, rfl⟩
    have inside : model ∈ registry.models.models := List.mem_of_find?_eq_some found
    exact ⟨model, inside, rfl, ModelTables.getModelByAlias_aliasName found⟩

end Steps

section Runs

theorem unambiguous_empty {backends : List Backend} (nodup : (backends.map (·.id)).Nodup)
    (pos : ∀ backend ∈ backends, 0 < backend.id) :
    Unambiguous (Resolves (Registry.empty backends nodup pos)) := by
  rintro name (modelId | queueId) second resolves _
  · rcases resolves with ⟨model, listed, _⟩
    simp [Registry.empty] at listed
  · rcases resolves with ⟨row, listed, _⟩
    simp [Registry.empty] at listed

/-- In a run whose saves take no name of another entity, every string resolves to one entity, and
no operation makes the requests for it go to a different one. -/
theorem names_stay_unambiguous {text : TextLibrary} {backends : List Backend}
    {nodup : (backends.map (·.id)).Nodup} {pos : ∀ backend ∈ backends, 0 < backend.id}
    {actions : List Action} {registry : Registry}
    (run : Run (step text) (fun registry action => separates text registry action = true)
      (Registry.empty backends nodup pos) actions registry) :
    Unambiguous (Resolves registry) ∧
      ∀ action next, separates text registry action = true →
        step text registry action = some next → ∀ name before after,
          route registry name = some before → route next name = some after → after = before := by
  have unambiguous : Unambiguous (Resolves registry) := by
    apply run.invariant (fun registry => Unambiguous (Resolves registry))
    · exact unambiguous_empty nodup pos
    · intro registry next action unambiguous separate fires
      rcases step_gives separate fires with ⟨thing, gives⟩
      exact unambiguous.givesTo gives
  refine ⟨unambiguous, ?_⟩
  intro action next separate fires name before after routed alsoRouted
  rcases step_gives separate fires with ⟨thing, gives⟩
  exact unambiguous.same_of_givesTo gives (resolves_of_route routed)
    (resolves_of_route alsoRouted)

def chatModel : Model where
  id := 0
  aliasName := "chat"
  upstreamName := "llama3"
  lbPolicy := ""
  enabled := true
  backendIds := []
  maxContext := 0
  fallback := ""
  promptCache := ""
  params := ""
  media := []
  hubShare := false
  hubNodeID := ""
  hubNodeName := ""

/-- A queue over `chat`, with this name and alias. -/
def chatQueue (name aliasName : String) : QueueDraft where
  id := 0
  name := name
  aliasName := aliasName
  enabled := true
  overflowAfter := 5
  overflowAlias := ""
  maxWaitMS := 0
  steps := [("chat", 1)]

def emptyStore : Registry :=
  Registry.empty [] List.nodup_nil ModelTables.backends_pos_nil

/-- A model, a queue and an extra alias for it. -/
def separateNames : List Action :=
  [.saveModel chatModel, .saveQueue (chatQueue "itres" "coder"), .addQueueAlias 1 "dev"]

theorem names_stay_unambiguous_separateNames :
    ∃ registry, Run (step asciiText) (fun registry action =>
        separates asciiText registry action = true) emptyStore separateNames registry ∧
      route registry "itres/coder" = some (.queue 1) ∧ route registry "chat" = some (.model 1) ∧
        Unambiguous (Resolves registry) := by
  have ran : (execWhen (step asciiText) (separates asciiText) emptyStore separateNames).any
      (fun registry => route registry "itres/coder" = some (.queue 1) &&
        route registry "chat" = some (.model 1)) = true := by
    decide
  rcases (Option.any_eq_true _ _).mp ran with ⟨registry, executed, facts⟩
  simp only [Bool.and_eq_true, decide_eq_true_eq] at facts
  have run := run_of_execWhen executed
  exact ⟨registry, run, facts.1, facts.2, (names_stay_unambiguous run).1⟩

/-- A queue is given the name of a model. -/
theorem not_names_stay_unambiguous :
    ∃ registry next, Run (step asciiText) (fun _ _ => True) emptyStore [.saveModel chatModel]
        registry ∧ step asciiText registry (.saveQueue (chatQueue "chat" "slow")) = some next ∧
      (registry.saveQueue (chatQueue "chat" "slow")).2 = .ok 1 ∧
      route registry "chat" = some (.model 1) ∧ route next "chat" = some (.queue 1) ∧
        ¬Unambiguous (Resolves next) := by
  have ran : (exec (step asciiText) emptyStore [.saveModel chatModel]).any (fun registry =>
      (registry.saveQueue (chatQueue "chat" "slow")).2 = .ok 1 &&
        (route registry "chat" = some (.model 1) &&
          (route (registry.saveQueue (chatQueue "chat" "slow")).1 "chat" = some (.queue 1) &&
            ((registry.saveQueue (chatQueue "chat" "slow")).1.models.models.any fun model =>
              model.id = 1 && model.aliasName = "chat")))) = true := by
    decide
  rcases (Option.any_eq_true _ _).mp ran with ⟨registry, executed, facts⟩
  simp only [Bool.and_eq_true, decide_eq_true_eq, List.any_eq_true] at facts
  rcases facts with ⟨saves, before, after, isModel⟩
  refine ⟨registry, _, run_of_exec executed, rfl, saves, before, after, ?_⟩
  intro unambiguous
  have same := unambiguous "chat" (.queue 1) (.model 1) (resolves_of_route after) isModel
  cases same

end Runs

end Names

end MikroLLM.Proxy
