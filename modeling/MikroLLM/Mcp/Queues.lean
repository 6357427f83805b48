import Mathlib.Data.List.Dedup
import MikroLLM.Mcp.Arguments
import MikroLLM.Store.SavedQueues

/-!
# The tool `save_queue`

The tool saves the queue and its steps first, and replaces the extra aliases
after that, one by one. An alias that cannot be added ends the call with an
error, and what was written before stays.
-/

namespace MikroLLM.Mcp

open Domain Go Store

section Tool

variable (outside : Double → ℤ)

/-- One element of `steps`; what is no object and what has no alias is skipped. -/
def listedStep : Json → Option (String × ℤ)
  | .object fields =>
      let modelAlias := stringify outside ((fieldOf fields "model_alias").getD .null)
      let name :=
        if modelAlias = "" then stringify outside ((fieldOf fields "alias").getD .null)
        else modelAlias
      let cap := intArg outside [("n", (fieldOf fields "max_concurrent").getD .null)] ["n"]
      if name = "" then none else some (name, (cap.filter (0 < ·)).getD 1)
  | _ => none

/-- The steps of the call. -/
def stepsArg (args : Fields) : Option (List (String × ℤ)) :=
  match fieldOf args "steps" with
  | some (.array items) => some (items.filterMap (listedStep outside))
  | _ => none

/-- The queue that the arguments fill in, before what they give of the rest. -/
def startingDraft (registry : Registry) (args : Fields) : Except SaveError QueueDraft :=
  match idArg outside args with
  | none => .ok {
      id := 0
      name := strArg outside args ["name"]
      aliasName := strArg outside args ["alias"]
      enabled := true
      overflowAfter := 0
      overflowAlias := strArg outside args ["overflow_alias"]
      maxWaitMS := 0
      steps := [] }
  | some id =>
      match registry.queues.getQueue id.toNat with
      | none => .error (.text "sql: no rows in result set")
      | some old => .ok {
          id := old.id
          name := if hasArg args "name" then strArg outside args ["name"] else old.name
          aliasName := if hasArg args "alias" then strArg outside args ["alias"] else old.aliasName
          enabled := old.enabled
          overflowAfter := old.overflowAfter
          overflowAlias :=
            if hasArg args "overflow_alias" then strArg outside args ["overflow_alias"]
            else old.overflowAlias
          maxWaitMS := old.maxWaitMS
          steps := old.steps.map fun step => (step.modelAlias, step.maxConcurrent) }

/-- The queue that the tool saves. -/
def queueDraft (registry : Registry) (args : Fields) : Except SaveError QueueDraft :=
  (startingDraft outside registry args).map fun draft =>
    { draft with
      enabled := if hasArg args "enabled" then boolArg args "enabled" true else draft.enabled
      overflowAfter :=
        match intArg outside args ["overflow_after"] with
        | some given => given
        | none => if draft.id = 0 then 5 else draft.overflowAfter
      maxWaitMS := (intArg outside args ["max_wait_ms"]).getD draft.maxWaitMS
      steps := (stepsArg outside args).getD draft.steps }

/-- The first loop of `replaceQueueAliases`: the aliases to keep, unless one cannot be added. -/
def addWanted (queue : Queue) (registry : Registry) (keep : List String) :
    List String → Registry × Except SaveError (List String)
  | [] => (registry, .ok keep)
  | wanted :: rest =>
      let name := trimSpace wanted
      if name = "" ∨ name = queue.aliasName then addWanted queue registry keep rest
      else if name ∈ queue.extraAliases then addWanted queue registry (name :: keep) rest
      else
        match registry.addQueueAlias queue.id name with
        | (next, .error error) => (next, .error error)
        | (next, .ok _) => addWanted queue next (name :: keep) rest

/-- `replaceQueueAliases`. -/
def replaceQueueAliases (registry : Registry) (id : QueueId) (want : List String) :
    Registry × Except SaveError Unit :=
  match registry.queues.getQueue id with
  | none => (registry, .error (.text "sql: no rows in result set"))
  | some queue =>
      match addWanted queue registry [] want with
      | (next, .error error) => (next, .error error)
      | (next, .ok keep) =>
          (next.deleteQueueAliases id (queue.extraAliases.filter (· ∉ keep)), .ok ())

/-- `domain.Queue\x7b\x7d`, what a failed query leaves. -/
def noQueue : Queue where
  id := 0
  name := ""
  aliasName := ""
  enabled := false
  overflowAfter := 0
  overflowAlias := ""
  maxWaitMS := 0
  steps := []
  extraAliases := []

/-- The extra aliases of the call are replaced, where it gives them. -/
def replaceGiven (registry : Registry) (id : QueueId) (args : Fields) :
    Registry × Except SaveError Unit :=
  match strSlice outside args "extra_aliases" with
  | some want => replaceQueueAliases registry id want
  | none => (registry, .ok ())

/-- `toolSaveQueue`. -/
def toolSaveQueue (registry : Registry) (args : Fields) : Registry × Except SaveError Queue :=
  match queueDraft outside registry args with
  | .error error => (registry, .error error)
  | .ok draft =>
      match registry.saveQueue draft with
      | (saved, .error error) => (saved, .error error)
      | (saved, .ok id) =>
          match replaceGiven outside saved id args with
          | (next, .error error) => (next, .error error)
          | (next, .ok _) => (next, .ok ((next.queues.getQueue id).getD noQueue))

end Tool

/-- The wanted names of a queue, trimmed, without blanks and its own alias. -/
def wantedNames (primary : String) (want : List String) : List String :=
  (want.map trimSpace).filter fun name => name ≠ "" ∧ name ≠ primary

/-- The wanted names that the queue does not have. -/
def newNames (primary : String) (extras want : List String) : List String :=
  (wantedNames primary want).filter (· ∉ extras)

section Loop

variable {registry next : Registry} {queue : Queue} {keep want rest : List String} {wanted : String}

/-- A blank name and the alias of the queue are skipped. -/
theorem addWanted_skipped (registry : Registry) (keep rest : List String)
    (skipped : trimSpace wanted = "" ∨ trimSpace wanted = queue.aliasName) :
    addWanted queue registry keep (wanted :: rest) = addWanted queue registry keep rest ∧
      wantedNames queue.aliasName (wanted :: rest) = wantedNames queue.aliasName rest := by
  constructor
  · rw [addWanted, if_pos skipped]
  · rw [wantedNames, List.map_cons, List.filter_cons_of_neg]
    · rfl
    · simpa [Classical.or_iff_not_imp_left] using skipped

theorem wantedNames_cons (named : trimSpace wanted ≠ "")
    (notPrimary : trimSpace wanted ≠ queue.aliasName) :
    wantedNames queue.aliasName (wanted :: rest) =
      trimSpace wanted :: wantedNames queue.aliasName rest := by
  rw [wantedNames, List.map_cons, List.filter_cons_of_pos]
  · rfl
  · simp [named, notPrimary]

/-- A name that the queue has is kept. -/
theorem addWanted_old (registry : Registry) (keep rest : List String)
    (named : trimSpace wanted ≠ "")
    (notPrimary : trimSpace wanted ≠ queue.aliasName)
    (isOld : trimSpace wanted ∈ queue.extraAliases) :
    addWanted queue registry keep (wanted :: rest) =
        addWanted queue registry (trimSpace wanted :: keep) rest ∧
      newNames queue.aliasName queue.extraAliases (wanted :: rest) =
        newNames queue.aliasName queue.extraAliases rest := by
  have notSkipped : ¬(trimSpace wanted = "" ∨ trimSpace wanted = queue.aliasName) :=
    not_or.mpr ⟨named, notPrimary⟩
  constructor
  · rw [addWanted, if_neg notSkipped, if_pos isOld]
  · rw [newNames, wantedNames_cons named notPrimary, List.filter_cons_of_neg (by simpa using isOld)]
    rfl

/-- Another name is added. -/
theorem addWanted_new (registry : Registry) (keep rest : List String)
    (named : trimSpace wanted ≠ "")
    (notPrimary : trimSpace wanted ≠ queue.aliasName)
    (isNew : trimSpace wanted ∉ queue.extraAliases) :
    addWanted queue registry keep (wanted :: rest) =
        (match registry.addQueueAlias queue.id (trimSpace wanted) with
          | (next, .error error) => (next, .error error)
          | (next, .ok _) => addWanted queue next (trimSpace wanted :: keep) rest) ∧
      newNames queue.aliasName queue.extraAliases (wanted :: rest) =
        trimSpace wanted :: newNames queue.aliasName queue.extraAliases rest := by
  have notSkipped : ¬(trimSpace wanted = "" ∨ trimSpace wanted = queue.aliasName) :=
    not_or.mpr ⟨named, notPrimary⟩
  constructor
  · rw [addWanted, if_neg notSkipped, if_neg isNew]
  · rw [newNames, wantedNames_cons named notPrimary, List.filter_cons_of_pos (by simpa using isNew)]
    rfl

/-- The queue is there under its alias. -/
def Present (registry : Registry) (queue : Queue) : Prop :=
  (registry.queues.queues.find? (·.id = queue.id)).map (·.aliasName) = some queue.aliasName

theorem Present.adds {names : List String} (present : Present registry queue)
    (adds : AddsAliases registry queue.id names next) : Present next queue := by
  rw [Present, adds.queues]
  exact present

theorem Present.found (present : Present registry queue) :
    ∃ found, registry.queues.getQueue queue.id = some found ∧
      found.aliasName = queue.aliasName := by
  rcases Option.map_eq_some_iff.mp present with ⟨row, rowFound, isAlias⟩
  rw [getQueue_eq, rowFound]
  exact ⟨_, rfl, isAlias⟩

/-- What the loop does with a wanted name: skip it, keep it, add it or fail. -/
theorem addWanted_cases (present : Present registry queue) (wanted : String) :
    (trimSpace wanted = "" ∨ trimSpace wanted = queue.aliasName) ∨
      (trimSpace wanted ≠ "" ∧ trimSpace wanted ≠ queue.aliasName ∧
        (trimSpace wanted ∈ queue.extraAliases ∨
          (trimSpace wanted ∉ queue.extraAliases ∧
            ((Addable registry queue.id (trimSpace wanted) ∧
              ∃ next, registry.addQueueAlias queue.id (trimSpace wanted) = (next, .ok ()) ∧
                AddsAliases registry queue.id [trimSpace wanted] next ∧ Present next queue) ∨
            (¬Addable registry queue.id (trimSpace wanted) ∧
              ∃ error, registry.addQueueAlias queue.id (trimSpace wanted) =
                (registry, .error error)))))) := by
  by_cases skipped : trimSpace wanted = "" ∨ trimSpace wanted = queue.aliasName
  · exact Or.inl skipped
  · rw [not_or] at skipped
    refine Or.inr ⟨skipped.1, skipped.2, ?_⟩
    by_cases isOld : trimSpace wanted ∈ queue.extraAliases
    · exact Or.inl isOld
    · refine Or.inr ⟨isOld, ?_⟩
      rcases present.found with ⟨found, isFound, sameAlias⟩
      have notPrimary : found.aliasName ≠ trimSpace wanted := by
        rw [sameAlias]
        exact Ne.symm skipped.2
      by_cases addable : Addable registry queue.id (trimSpace wanted)
      · rcases addQueueAlias_addable isFound (trimSpace_trimSpace wanted) skipped.1 notPrimary
          addable with ⟨next, accepted, adds⟩
        exact Or.inl ⟨addable, next, accepted, adds, present.adds adds⟩
      · exact Or.inr ⟨addable,
          addQueueAlias_not_addable isFound (trimSpace_trimSpace wanted) notPrimary addable⟩

/-- When all new names can be added, they are, and the wanted ones are kept. -/
theorem addWanted_allAddable (present : Present registry queue)
    (addable : AllAddable registry queue.id
      (newNames queue.aliasName queue.extraAliases want)) :
    ∃ next kept, addWanted queue registry keep want = (next, .ok kept) ∧
      AddsAliases registry queue.id (newNames queue.aliasName queue.extraAliases want) next ∧
      ∀ name, name ∈ kept ↔ name ∈ keep ∨ name ∈ wantedNames queue.aliasName want := by
  induction want generalizing registry keep with
  | nil => exact ⟨registry, keep, rfl, AddsAliases.refl registry queue.id, by simp [wantedNames]⟩
  | cons wanted rest ih =>
      rcases addWanted_cases present wanted with skipped | ⟨named, notPrimary, isOld | ⟨isNew, step⟩⟩
      · rcases addWanted_skipped registry keep rest skipped with
          ⟨isStep, sameNames⟩
        rw [newNames, sameNames] at addable ⊢
        rw [isStep]
        exact ih present addable
      · rcases addWanted_old registry keep rest named notPrimary
          isOld with ⟨isStep, sameNames⟩
        rw [sameNames] at addable ⊢
        rw [isStep, wantedNames_cons named notPrimary]
        rcases @ih registry (trimSpace wanted :: keep) present addable with
          ⟨next, kept, added, adds, keeps⟩
        refine ⟨next, kept, added, adds, ?_⟩
        intro name
        rw [keeps, List.mem_cons, List.mem_cons, or_assoc, or_left_comm]
      · rcases addWanted_new registry keep rest named notPrimary
          isNew with ⟨isStep, newName⟩
        rw [newName] at addable ⊢
        rw [isStep, wantedNames_cons named notPrimary]
        rcases step with ⟨first, middle, accepted, addsFirst, stillPresent⟩ | ⟨first, _⟩
        · rcases ih stillPresent
            ((addsFirst.allAddable_iff first).mp addable) with ⟨next, kept, added, adds, keeps⟩
          refine ⟨next, kept, ?_, addsFirst.trans adds, ?_⟩
          · rw [accepted]
            exact added
          · intro name
            rw [keeps, List.mem_cons, List.mem_cons, or_assoc, or_left_comm]
        · exact absurd (addable.2 _ List.mem_cons_self) first

/-- When not all new names can be added, the loop ends with an error; it has added nothing exactly
when the first new name is the one. -/
theorem addWanted_not_allAddable (present : Present registry queue)
    (refused : ¬AllAddable registry queue.id
      (newNames queue.aliasName queue.extraAliases want)) :
    ∃ next error added, addWanted queue registry keep want = (next, .error error) ∧
      AddsAliases registry queue.id added next ∧
      (added = [] ↔ ∃ name, (newNames queue.aliasName queue.extraAliases want).head? = some name ∧
        ¬Addable registry queue.id name) := by
  induction want generalizing registry keep with
  | nil => exact absurd ⟨List.nodup_nil, fun _ inside => nomatch inside⟩ refused
  | cons wanted rest ih =>
      rcases addWanted_cases present wanted with skipped | ⟨named, notPrimary, isOld | ⟨isNew, step⟩⟩
      · rcases addWanted_skipped registry keep rest skipped with
          ⟨isStep, sameNames⟩
        rw [newNames, sameNames] at refused ⊢
        rw [isStep]
        exact ih present refused
      · rcases addWanted_old registry keep rest named notPrimary
          isOld with ⟨isStep, sameNames⟩
        rw [sameNames] at refused ⊢
        rw [isStep]
        exact ih present refused
      · rcases addWanted_new registry keep rest named notPrimary
          isNew with ⟨isStep, newName⟩
        rw [newName] at refused ⊢
        rw [isStep]
        rcases step with ⟨first, middle, accepted, addsFirst, stillPresent⟩ | ⟨first, error, rejected⟩
        · rcases @ih middle (trimSpace wanted :: keep) stillPresent
            (fun all => refused ((addsFirst.allAddable_iff first).mpr all)) with
            ⟨next, error, added, stuck, adds, _⟩
          refine ⟨next, error, [trimSpace wanted] ++ added, ?_, addsFirst.trans adds, ?_⟩
          · rw [accepted]
            exact stuck
          · simp [first]
        · refine ⟨registry, error, [], ?_, AddsAliases.refl registry queue.id, ?_⟩
          · rw [rejected]
          · simp [first]

end Loop

/-- The steps as they are stored. -/
def trimmedSteps (given : List (String × ℤ)) : List (String × ℤ) :=
  (given.map fun step => (trimSpace step.1, step.2)).filter (·.1 ≠ "")

/-- An error leaves every queue as it was, and a success stores the steps and the extra aliases
that were given. -/
structure SavesWhole (outside : Double → ℤ) (registry : Registry) (args : Fields) : Prop where
  unchanged : ∀ next error, toolSaveQueue outside registry args = (next, .error error) →
    ∀ id, next.queues.getQueue id = registry.queues.getQueue id
  stored : ∀ next queue, toolSaveQueue outside registry args = (next, .ok queue) →
    next.queues.getQueue queue.id = some queue ∧
      (∀ given, stepsArg outside args = some given →
        queue.steps.map (fun step => (step.modelAlias, step.maxConcurrent)) = trimmedSteps given) ∧
      ∀ want, strSlice outside args "extra_aliases" = some want →
        queue.extraAliases.Perm (wantedNames queue.aliasName want).dedup

/-- When the queue is saved, all new aliases can be added, or else the first of them cannot and the
queue is saved as it was. -/
def AllOrNothing (outside : Double → ℤ) (registry : Registry) (args : Fields) : Prop :=
  ∀ draft want, queueDraft outside registry args = .ok draft →
    strSlice outside args "extra_aliases" = some want → draft.Admitted registry →
      let id := draft.rowId registry
      let extras := registry.queues.extrasOf id
      let names := newNames (trimSpace draft.aliasName) extras want
      AllAddable registry id names ∨
        (registry.queues.getQueue id = some (draft.queue id extras) ∧
          ∃ name, names.head? = some name ∧ ¬Addable registry id name)

section Whole

variable {outside : Double → ℤ} {registry saved next : Registry} {args : Fields}
  {draft : QueueDraft} {id : QueueId} {want : List String}

/-- The queue of a draft is new or was found. -/
theorem queueDraft_known (drafted : queueDraft outside registry args = .ok draft) :
    draft.Known registry := by
  rw [queueDraft] at drafted
  cases started : startingDraft outside registry args with
  | error error =>
      rw [started] at drafted
      exact nomatch drafted
  | ok start =>
      rw [started] at drafted
      cases drafted
      rw [startingDraft] at started
      split at started
      · cases started
        exact Or.inl rfl
      · split at started
        · exact nomatch started
        · rename_i old found
          cases started
          rw [getQueue_eq, Option.map_eq_some_iff] at found
          rcases found with ⟨row, rowFound, rfl⟩
          refine Or.inr (List.mem_map.mpr ⟨row, List.mem_of_find?_eq_some rowFound, ?_⟩)
          simpa using List.find?_some rowFound

theorem queueDraft_steps (drafted : queueDraft outside registry args = .ok draft)
    {given : List (String × ℤ)} (isGiven : stepsArg outside args = some given) :
    draft.steps = given := by
  rw [queueDraft] at drafted
  cases started : startingDraft outside registry args with
  | error error =>
      rw [started] at drafted
      exact nomatch drafted
  | ok start =>
      rw [started] at drafted
      cases drafted
      simp [isGiven]

/-- The cap of a given step is positive. -/
theorem stepsArg_pos {given : List (String × ℤ)} (isGiven : stepsArg outside args = some given) :
    ∀ step ∈ given, 0 < step.2 := by
  rw [stepsArg] at isGiven
  split at isGiven
  · cases isGiven
    intro step inside
    rcases List.mem_filterMap.mp inside with ⟨item, _, isListed⟩
    cases item with
    | object fields =>
        simp only [listedStep, Option.ite_none_left_eq_some, Option.some.injEq] at isListed
        rw [← isListed.2]
        cases capped : (intArg outside
            [("n", (fieldOf fields "max_concurrent").getD .null)] ["n"]).filter (0 < ·) with
        | none => exact Int.one_pos
        | some cap =>
            have positive := (Option.filter_eq_some_iff.mp capped).2
            simpa using positive
    | _ => simp [listedStep] at isListed
  · exact nomatch isGiven

theorem draftStep_map {given : List (String × ℤ)} (positive : ∀ step ∈ given, 0 < step.2)
    (start : ℕ) :
    ((given.zipIdx start).filterMap Registry.draftStep).map
        (fun step => (step.modelAlias, step.maxConcurrent)) = trimmedSteps given := by
  induction given generalizing start with
  | nil => rfl
  | cons first rest ih =>
      have tail := ih (fun step inside => positive step (List.mem_cons_of_mem _ inside)) (start + 1)
      have notCapped : ¬first.2 ≤ 0 := not_le.mpr (positive first List.mem_cons_self)
      rw [List.zipIdx_cons]
      by_cases blank : trimSpace first.1 = ""
      · have skipped : Registry.draftStep (first, start) = none := by
          rw [Registry.draftStep, dif_pos blank]
        rw [List.filterMap_cons_none skipped, tail]
        simp [trimmedSteps, blank]
      · have isStep : Registry.draftStep (first, start) =
            some ⟨start, trimSpace first.1, first.2, blank⟩ := by
          rw [Registry.draftStep, dif_neg blank, if_neg notCapped]
        rw [List.filterMap_cons_some isStep, List.map_cons, tail]
        simp [trimmedSteps, blank]

theorem present_of_saves (saves : SavesQueue registry saved draft id) :
    Present saved (draft.queue id (registry.queues.extrasOf id)) := by
  have found := saves.found
  rw [getQueue_eq, Option.map_eq_some_iff] at found
  rcases found with ⟨row, rowFound, isQueue⟩
  have isAlias : row.aliasName = trimSpace draft.aliasName := congrArg (·.aliasName) isQueue
  have sameRow : saved.queues.queues.find? (·.id = id) = some row := rowFound
  exact Option.map_eq_some_iff.mpr ⟨row, sameRow, isAlias⟩

/-- The extra aliases that are left are those that were wanted. -/
theorem extras_perm {kept : List String} {primary : String}
    (adds : AddsAliases saved id (newNames primary (saved.queues.extrasOf id) want) next)
    (keeps : ∀ name, name ∈ kept ↔ name ∈ wantedNames primary want) :
    ((next.deleteQueueAliases id ((saved.queues.extrasOf id).filter (· ∉ kept))).queues.extrasOf
      id).Perm (wantedNames primary want).dedup := by
  rcases deleteQueueAliases_spec next id ((saved.queues.extrasOf id).filter (· ∉ kept)) with
    ⟨_, _, aliases⟩
  rw [List.perm_ext_iff_of_nodup (nodup_extrasOf _ _) (List.nodup_dedup _)]
  intro name
  rw [mem_extrasOf, aliases, adds.aliases, List.mem_dedup]
  have isOld := @mem_extrasOf saved id name
  have isKept := keeps name
  simp only [newNames, List.mem_filter, List.mem_append, List.mem_map, Prod.mk.injEq, and_true,
    exists_eq_right, decide_true, Bool.true_and, decide_eq_true_eq, Bool.not_eq_true',
    decide_eq_false_iff_not, ← isOld, isKept]
  tauto

/-- The aliases of the queue that was saved are replaced. -/
theorem replaceQueueAliases_allAddable (saves : SavesQueue registry saved draft id)
    (addable : AllAddable registry id
      (newNames (trimSpace draft.aliasName) (registry.queues.extrasOf id) want)) :
    ∃ next extras, replaceQueueAliases saved id want = (next, .ok ()) ∧
      next.queues.getQueue id = some (draft.queue id extras) ∧
      extras.Perm (wantedNames (trimSpace draft.aliasName) want).dedup := by
  have sameExtras : saved.queues.extrasOf id = registry.queues.extrasOf id := saves.extrasOf_eq
  rcases @addWanted_allAddable saved (draft.queue id (registry.queues.extrasOf id)) [] want
    (present_of_saves saves) (saves.allAddable_iff.mpr addable) with ⟨added, kept, isAdded, adds, keeps⟩
  have keepsWanted : ∀ name, name ∈ kept ↔
      name ∈ wantedNames (trimSpace draft.aliasName) want := by
    intro name
    rw [keeps, List.mem_nil_iff, false_or]
    rfl
  have addsNew : AddsAliases saved id
      (newNames (trimSpace draft.aliasName) (saved.queues.extrasOf id) want) added := by
    rw [sameExtras]
    exact adds
  rcases deleteQueueAliases_spec added id ((saved.queues.extrasOf id).filter (· ∉ kept)) with
    ⟨queues, steps, _⟩
  refine ⟨added.deleteQueueAliases id ((saved.queues.extrasOf id).filter (· ∉ kept)),
    (added.deleteQueueAliases id ((saved.queues.extrasOf id).filter (· ∉ kept))).queues.extrasOf id,
    ?_, saves.getQueue_eq (queues.trans adds.queues) (steps.trans adds.steps),
    extras_perm addsNew keepsWanted⟩
  rw [replaceQueueAliases, saves.found, sameExtras]
  simp only [isAdded]
  rfl

/-- When an alias cannot be added, the call ends with an error; the queues are those before the
call exactly when the queue was saved as it was and no alias was added. -/
theorem replaceQueueAliases_not_allAddable (saves : SavesQueue registry saved draft id)
    (refused : ¬AllAddable registry id
      (newNames (trimSpace draft.aliasName) (registry.queues.extrasOf id) want)) :
    ∃ next error, replaceQueueAliases saved id want = (next, .error error) ∧
      ((∀ other, next.queues.getQueue other = registry.queues.getQueue other) ↔
        registry.queues.getQueue id = some (draft.queue id (registry.queues.extrasOf id)) ∧
          ∃ name, (newNames (trimSpace draft.aliasName) (registry.queues.extrasOf id) want).head? =
            some name ∧ ¬Addable registry id name) := by
  rcases @addWanted_not_allAddable saved (draft.queue id (registry.queues.extrasOf id)) [] want
    (present_of_saves saves) (fun all => refused (saves.allAddable_iff.mp all)) with
    ⟨next, error, added, stuck, adds, nothing⟩
  refine ⟨next, error, ?_, ?_⟩
  · rw [replaceQueueAliases, saves.found]
    simp only [stuck]
  · have stuckAtFirst : added = [] ↔ ∃ name,
        (newNames (trimSpace draft.aliasName) (registry.queues.extrasOf id) want).head? =
          some name ∧ ¬Addable registry id name := by
      rw [nothing]
      apply exists_congr
      intro name
      exact and_congr_right fun _ => not_congr saves.addable_iff
    have sameExtras : saved.queues.extrasOf id = registry.queues.extrasOf id := saves.extrasOf_eq
    have isQueue := saves.getQueue_eq adds.queues adds.steps
    have more : (next.queues.extrasOf id).Perm (saved.queues.extrasOf id ++ added) :=
      adds.extrasOf_perm
    constructor
    · intro unchanged
      have same := unchanged id
      have sameNext : next.queues.extrasOf id = registry.queues.extrasOf id := by
        rw [isQueue, getQueue_eq] at same
        rcases Option.map_eq_some_iff.mp same.symm with ⟨row, _, isRow⟩
        exact (congrArg (·.extraAliases) isRow).symm
      refine ⟨by rw [← same, isQueue, sameNext], stuckAtFirst.mp ?_⟩
      have sameLength := more.length_eq
      rw [sameNext] at sameLength
      rw [List.length_append, sameExtras] at sameLength
      exact List.eq_nil_of_length_eq_zero (by omega)
    · rintro ⟨idle, isStuck⟩ other
      have none := stuckAtFirst.mpr isStuck
      rw [none] at adds
      by_cases isSaved : other = id
      · have sameNext : next.queues.extrasOf id = saved.queues.extrasOf id := by
          rw [QueueTables.extrasOf, adds.aliases, List.map_nil, List.append_nil]
          rfl
        rw [isSaved, isQueue, idle, sameNext, sameExtras]
      · exact (adds.getQueue_other isSaved).trans (saves.others other isSaved)

variable (outside) in
/-- A draft that is saved, with extra aliases. -/
theorem toolSaveQueue_replaces (drafted : queueDraft outside registry args = .ok draft)
    (isSaved : registry.saveQueue draft = (saved, .ok id))
    (isGiven : strSlice outside args "extra_aliases" = some want) :
    toolSaveQueue outside registry args =
      match replaceQueueAliases saved id want with
      | (next, .error error) => (next, .error error)
      | (next, .ok _) => (next, .ok ((next.queues.getQueue id).getD noQueue)) := by
  rw [toolSaveQueue, drafted]
  simp only [isSaved, replaceGiven, isGiven]

/-- The steps that are given are those of the queue that is saved. -/
theorem draft_steps_eq (drafted : queueDraft outside registry args = .ok draft)
    {given : List (String × ℤ)} (isGiven : stepsArg outside args = some given)
    (extras : List String) :
    (draft.queue id extras).steps.map (fun step => (step.modelAlias, step.maxConcurrent)) =
      trimmedSteps given := by
  have sameSteps := queueDraft_steps drafted isGiven
  rw [QueueDraft.queue, sameSteps]
  exact draftStep_map (stepsArg_pos isGiven) 0

/-- A call that failed. -/
theorem savesWhole_of_error {error : SaveError}
    (ran : toolSaveQueue outside registry args = (next, .error error))
    (unchanged : ∀ id, next.queues.getQueue id = registry.queues.getQueue id) :
    SavesWhole outside registry args where
  unchanged last failure failed := by
    cases ran.symm.trans failed
    exact unchanged
  stored last queue done := nomatch (Prod.mk.inj (ran.symm.trans done)).2

/-- A call that stored the queue of its draft. -/
theorem savesWhole_of_ok {extras : List String}
    (drafted : queueDraft outside registry args = .ok draft)
    (ran : toolSaveQueue outside registry args = (next, .ok (draft.queue id extras)))
    (found : next.queues.getQueue id = some (draft.queue id extras))
    (wanted : ∀ want, strSlice outside args "extra_aliases" = some want →
      extras.Perm (wantedNames (trimSpace draft.aliasName) want).dedup) :
    SavesWhole outside registry args where
  unchanged last failure failed := nomatch (Prod.mk.inj (ran.symm.trans failed)).2
  stored last queue done := by
    cases ran.symm.trans done
    exact ⟨found, fun given stepsGiven => draft_steps_eq drafted stepsGiven extras, wanted⟩

/-- The call leaves all or nothing exactly under the condition on the new aliases. -/
theorem savesWhole_iff (outside : Double → ℤ) (registry : Registry) (args : Fields) :
    SavesWhole outside registry args ↔ AllOrNothing outside registry args := by
  constructor
  · rintro ⟨unchanged, _⟩ draft want drafted isGiven admitted
    rcases saveQueue_admitted admitted (queueDraft_known drafted) with ⟨saved, isSaved, saves⟩
    by_cases addable : AllAddable registry (draft.rowId registry)
      (newNames (trimSpace draft.aliasName) (registry.queues.extrasOf (draft.rowId registry)) want)
    · exact Or.inl addable
    · rcases replaceQueueAliases_not_allAddable saves addable with ⟨next, error, stuck, same⟩
      refine Or.inr (same.mp (unchanged next error ?_))
      rw [toolSaveQueue_replaces outside drafted isSaved isGiven, stuck]
  · intro allOrNothing
    cases drafted : queueDraft outside registry args with
    | error refusal =>
        have ran : toolSaveQueue outside registry args = (registry, .error refusal) := by
          rw [toolSaveQueue, drafted]
        exact savesWhole_of_error ran fun _ => rfl
    | ok draft =>
        by_cases admitted : draft.Admitted registry
        · rcases saveQueue_admitted admitted (queueDraft_known drafted) with
            ⟨saved, isSaved, saves⟩
          cases isGiven : strSlice outside args "extra_aliases" with
          | none =>
              apply savesWhole_of_ok drafted ?_ saves.found
              · intro want given
                exact nomatch isGiven.symm.trans given
              · rw [toolSaveQueue, drafted]
                simp only [isSaved, replaceGiven, isGiven, saves.found, Option.getD_some]
          | some want =>
              have condition := allOrNothing draft want drafted isGiven admitted
              by_cases addable : AllAddable registry (draft.rowId registry)
                (newNames (trimSpace draft.aliasName)
                  (registry.queues.extrasOf (draft.rowId registry)) want)
              · rcases replaceQueueAliases_allAddable saves addable with
                  ⟨next, extras, replaced, found, isWanted⟩
                apply savesWhole_of_ok drafted ?_ found
                · intro other given
                  cases isGiven.symm.trans given
                  exact isWanted
                · rw [toolSaveQueue_replaces outside drafted isSaved isGiven, replaced]
                  simp only [found, Option.getD_some]
              · rcases replaceQueueAliases_not_allAddable saves addable with
                  ⟨next, error, stuck, same⟩
                have ran : toolSaveQueue outside registry args = (next, .error error) := by
                  rw [toolSaveQueue_replaces outside drafted isSaved isGiven, stuck]
                exact savesWhole_of_error ran (same.mpr (condition.resolve_left addable))
        · rcases saveQueue_refused admitted with ⟨refusal, rejected⟩
          have ran : toolSaveQueue outside registry args = (registry, .error refusal) := by
            rw [toolSaveQueue, drafted]
            simp only [rejected]
          exact savesWhole_of_error ran fun _ => rfl

end Whole

section Trials

/-- A store with a model and a queue. -/
def chatStore : Registry where
  models := ⟨[⟨1, "chat", "llama3", "least_conn", true, [], 0, "", "inherit", "", [], false, "", ""⟩],
    [], by decide, by decide, List.nodup_nil, ModelTables.backends_pos_nil⟩
  queues := ⟨[⟨1, "main", "queue", true, 5, "", 0⟩], [], [], by decide, by decide, List.nodup_nil,
    by simp⟩
  nextModel := 2
  nextQueue := 2
  nextModel_pos := Nat.two_pos
  nextQueue_pos := Nat.two_pos
  models_id_pos := by decide
  models_id_lt := by decide
  queues_id_pos := by decide
  queues_id_lt := by decide

/-- The queue gets another name and the alias of the model. -/
def takenAlias : Fields :=
  [("id", .number ⟨1, 0⟩), ("name", .string "second"), ("extra_aliases", .array [.string "chat"])]

/-- The call fails, and the queue has its new name. -/
theorem not_savesWhole :
    ¬∀ (outside : Double → ℤ) (registry : Registry) (args : Fields),
      SavesWhole outside registry args := by
  intro claim
  have failed : (toolSaveQueue leastInt64 chatStore takenAlias).2 =
      .error (.text "alias chat already used") := by
    decide
  have renamed : ((toolSaveQueue leastInt64 chatStore takenAlias).1.queues.getQueue 1).map
      (·.name) = some "second" := by
    decide
  have before : (chatStore.queues.getQueue 1).map (·.name) = some "main" := by
    decide
  have same : (toolSaveQueue leastInt64 chatStore takenAlias).1.queues.getQueue 1 =
      chatStore.queues.getQueue 1 :=
    (claim leastInt64 chatStore takenAlias).unchanged _ _ (Prod.ext rfl failed) 1
  rw [same, before] at renamed
  exact absurd renamed (by decide)

end Trials

end MikroLLM.Mcp
