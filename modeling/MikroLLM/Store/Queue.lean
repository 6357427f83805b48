import Mathlib.Data.List.Sort
import MikroLLM.Domain.Queue
import MikroLLM.Go.Strings

/-!
# Queue definitions in the store

The tables `queues`, `queue_steps` and `queue_aliases` and the queries on them.
The constraints of the schema are fields of the table set, so a set that breaks
one cannot be built. A query that finds no row answers `none`, where the source
returns `sql.ErrNoRows`.
-/

namespace MikroLLM.Store

open Domain Go

/-- A row of table `queues`. -/
structure QueueRow where
  id : QueueId
  name : String
  aliasName : String
  enabled : Bool
  overflowAfter : ℤ
  overflowAlias : String
  maxWaitMS : ℤ
  deriving DecidableEq

/-- The queue definitions, with the keys and references the schema enforces. -/
structure QueueTables where
  queues : List QueueRow
  steps : List (QueueId × QueueStep)
  aliases : List (String × QueueId)
  queues_id_nodup : (queues.map (·.id)).Nodup
  queues_alias_nodup : (queues.map (·.aliasName)).Nodup
  aliases_nodup : (aliases.map (·.1)).Nodup
  aliases_owner : ∀ entry ∈ aliases, entry.2 ∈ queues.map (·.id)

namespace QueueTables

/-- `loadQueueKids`: the steps in order, with a cap of at least one, and the extra aliases. -/
def loadQueueKids (tables : QueueTables) (row : QueueRow) : Queue where
  id := row.id
  name := row.name
  aliasName := row.aliasName
  enabled := row.enabled
  overflowAfter := row.overflowAfter
  overflowAlias := row.overflowAlias
  maxWaitMS := row.maxWaitMS
  steps :=
    (((tables.steps.filter (·.1 = row.id)).map (·.2)).insertionSort (·.pos ≤ ·.pos)).map
      fun step => { step with
        maxConcurrent := if step.maxConcurrent ≤ 0 then 1 else step.maxConcurrent }
  extraAliases :=
    ((tables.aliases.filter (·.2 = row.id)).map (·.1)).insertionSort (· ≤ ·)

/-- `Store.GetQueue`. -/
def getQueue (tables : QueueTables) (id : QueueId) : Option Queue :=
  (tables.queues.find? (·.id = id)).map tables.loadQueueKids

/-- `Store.GetQueueByAlias`: the primary alias first, then the extra aliases. -/
def getQueueByAlias (tables : QueueTables) (requested : String) : Option Queue :=
  let name := trimSpace requested
  match tables.queues.find? (·.aliasName = name) with
  | some row => tables.getQueue row.id
  | none =>
      match tables.aliases.find? (·.1 = name) with
      | some entry => tables.getQueue entry.2
      | none => none

/-- `Store.ListQueues`, ordered by id. -/
def listQueues (tables : QueueTables) : List Queue :=
  (tables.queues.insertionSort (·.id ≤ ·.id)).map tables.loadQueueKids

variable {tables : QueueTables}

@[simp]
theorem loadQueueKids_id (row : QueueRow) : (tables.loadQueueKids row).id = row.id := rfl

@[simp]
theorem loadQueueKids_enabled (row : QueueRow) :
    (tables.loadQueueKids row).enabled = row.enabled := rfl

theorem getQueue_id {id : QueueId} {queue : Queue} (found : tables.getQueue id = some queue) :
    queue.id = id := by
  simp only [getQueue, Option.map_eq_some_iff] at found
  rcases found with ⟨row, rowFound, rfl⟩
  simpa using List.find?_some rowFound

theorem find?_queue_of_mem {row : QueueRow} (rowMem : row ∈ tables.queues) :
    tables.queues.find? (·.id = row.id) = some row := by
  cases found : tables.queues.find? (·.id = row.id) with
  | none => simpa using List.find?_eq_none.mp found row rowMem
  | some other =>
      have otherId : other.id = row.id := by simpa using List.find?_some found
      have otherMem := List.mem_of_find?_eq_some found
      rw [List.inj_on_of_nodup_map tables.queues_id_nodup otherMem rowMem otherId]

theorem getQueue_of_mem {row : QueueRow} (rowMem : row ∈ tables.queues) :
    tables.getQueue row.id = some (tables.loadQueueKids row) := by
  simp [getQueue, find?_queue_of_mem rowMem]

end QueueTables

/-- A row that `GetQueueByAlias` finds under a trimmed name: the queue whose primary alias
it is, else the queue it is an extra alias of. -/
def QueueTables.Names (tables : QueueTables) (name : String) (row : QueueRow) : Prop :=
  row ∈ tables.queues ∧
    (row.aliasName = name ∨
      ((∀ other ∈ tables.queues, other.aliasName ≠ name) ∧ (name, row.id) ∈ tables.aliases))

/-- `GetQueueByAlias` finds exactly the queues that a primary or extra alias names. -/
theorem QueueTables.getQueueByAlias_eq_some {tables : QueueTables} {name : String} {queue : Queue} :
    tables.getQueueByAlias name = some queue ↔
      ∃ row, tables.Names (trimSpace name) row ∧ queue = tables.loadQueueKids row := by
  constructor
  · intro found
    simp only [getQueueByAlias] at found
    split at found
    · rename_i row rowFound
      have rowMem := List.mem_of_find?_eq_some rowFound
      have rowAlias : row.aliasName = trimSpace name := by simpa using List.find?_some rowFound
      rw [getQueue_of_mem rowMem, Option.some.injEq] at found
      exact ⟨row, ⟨rowMem, Or.inl rowAlias⟩, found.symm⟩
    · rename_i noPrimary
      split at found
      · rename_i entry entryFound
        have entryMem := List.mem_of_find?_eq_some entryFound
        have entryAlias : entry.1 = trimSpace name := by simpa using List.find?_some entryFound
        rcases List.mem_map.mp (tables.aliases_owner entry entryMem) with ⟨row, rowMem, rowId⟩
        rw [← rowId, getQueue_of_mem rowMem, Option.some.injEq] at found
        refine ⟨row, ⟨rowMem, Or.inr ⟨?_, ?_⟩⟩, found.symm⟩
        · intro other otherMem
          simpa using List.find?_eq_none.mp noPrimary other otherMem
        · rw [← entryAlias, rowId]
          exact entryMem
      · cases found
  · rintro ⟨row, ⟨rowMem, named⟩, rfl⟩
    simp only [getQueueByAlias]
    rcases named with primary | ⟨noPrimary, extra⟩
    · have found : tables.queues.find? (·.aliasName = trimSpace name) = some row := by
        cases found : tables.queues.find? (·.aliasName = trimSpace name) with
        | none => simpa [primary] using List.find?_eq_none.mp found row rowMem
        | some other =>
            have otherAlias : other.aliasName = trimSpace name := by simpa using List.find?_some found
            have otherMem := List.mem_of_find?_eq_some found
            rw [List.inj_on_of_nodup_map tables.queues_alias_nodup otherMem rowMem
              (otherAlias.trans primary.symm)]
      rw [found]
      exact getQueue_of_mem rowMem
    · have absent : tables.queues.find? (·.aliasName = trimSpace name) = none := by
        rw [List.find?_eq_none]
        intro other otherMem
        simpa using noPrimary other otherMem
      have found : tables.aliases.find? (·.1 = trimSpace name) = some (trimSpace name, row.id) := by
        cases found : tables.aliases.find? (·.1 = trimSpace name) with
        | none => simpa using List.find?_eq_none.mp found _ extra
        | some other =>
            have otherAlias : other.1 = trimSpace name := by simpa using List.find?_some found
            have otherMem := List.mem_of_find?_eq_some found
            rw [List.inj_on_of_nodup_map tables.aliases_nodup otherMem extra otherAlias]
      rw [absent, found]
      exact getQueue_of_mem rowMem

end MikroLLM.Store
