import Mathlib.Algebra.Group.Nat.Defs
import MikroLLM.Store.Queue

/-!
# Resolving a model name to a queue

Two resolvers of the same names. `lookup` is what the proxy asks before it hands
a request to the engine, and what the engine asks about an overflow alias. A
`handle` call resolves the name it was given once more, with `enterFrame`.

`lookup` also accepts the name of a queue and the two forms built from name and
alias. `enterFrame` does not. The overflow path hands the overflow alias on as it
is written, where the proxy hands on the primary alias of the queue it found.
-/

namespace MikroLLM.Queue

open Domain Store Go

/-- `Limits`, as `New` leaves them: the two sizes are positive. -/
structure Limits where
  maxBytes : ℕ
  maxJobs : ℕ
  maxBytes_pos : 0 < maxBytes
  maxJobs_pos : 0 < maxJobs

/-- The names a queue has besides its aliases. -/
def derivedNames (queue : Queue) : List String :=
  [queue.name, queue.name ++ "-" ++ queue.aliasName, queue.name ++ "/" ++ queue.aliasName]

/-- `Engine.Lookup`. -/
def lookup (tables : QueueTables) (requested : String) : Option Queue :=
  let name := trimSpace requested
  if name = "" then none
  else
    let scan := tables.listQueues.find? fun queue => queue.enabled && name ∈ derivedNames queue
    match tables.getQueueByAlias name with
    | some queue => if queue.enabled then some queue else scan
    | none => scan

/-- What the first tests of a `handle` frame decide. -/
inductive Entry
  | refused (code : ℕ) (message : String)
  | entered (queue : Queue)
  deriving DecidableEq

/-- The start of `Engine.handle`, up to the purge. -/
def enterFrame (limits : Limits) (tables : QueueTables) (bytes : ℕ) (name : String) (depth : ℕ) :
    Entry :=
  if bytes > limits.maxBytes then .refused 413 "request too large for queue"
  else
    match tables.getQueueByAlias name with
    | none => .refused 404 "queue not found"
    | some queue =>
        if !queue.enabled then .refused 404 "queue not found"
        else if depth > 2 then .refused 503 "queue overflow loop"
        else .entered queue

/-- A `handle` call with this name works on `queue`, unless its body is too large or it is
nested too deeply, and in no case answers that there is no such queue. -/
def HandleAgrees (limits : Limits) (tables : QueueTables) (name : String) (queue : Queue) : Prop :=
  ∀ bytes depth,
    enterFrame limits tables bytes name depth ≠ .refused 404 "queue not found" ∧
      (bytes ≤ limits.maxBytes → depth ≤ 2 →
        enterFrame limits tables bytes name depth = .entered queue)

/-- An enabled queue has this name as its primary alias, or as an extra alias when no queue has
it as primary alias. -/
def NamedByAlias (tables : QueueTables) (name : String) : Prop :=
  ∃ row, tables.Names (trimSpace name) row ∧ row.enabled = true

section Agreement

variable {limits : Limits} {tables : QueueTables} {name : String} {queue : Queue}

theorem getQueueByAlias_trimSpace :
    tables.getQueueByAlias (trimSpace name) = tables.getQueueByAlias name := by
  simp [QueueTables.getQueueByAlias]

theorem namedByAlias_iff_getQueueByAlias :
    NamedByAlias tables name ↔
      ∃ queue, tables.getQueueByAlias name = some queue ∧ queue.enabled = true := by
  constructor
  · rintro ⟨row, named, enabled⟩
    exact ⟨tables.loadQueueKids row,
      QueueTables.getQueueByAlias_eq_some.mpr ⟨row, named, rfl⟩, enabled⟩
  · rintro ⟨queue, found, enabled⟩
    rcases QueueTables.getQueueByAlias_eq_some.mp found with ⟨row, named, rfl⟩
    exact ⟨row, named, enabled⟩

theorem lookup_eq_of_getQueueByAlias {byAlias : Queue}
    (found : tables.getQueueByAlias name = some byAlias) (enabled : byAlias.enabled = true)
    (looked : lookup tables name = some queue) : byAlias = queue := by
  simp only [lookup, getQueueByAlias_trimSpace, found, enabled] at looked
  split at looked
  · cases looked
  · simpa using looked

theorem enterFrame_of_getQueueByAlias {bytes depth : ℕ}
    (found : tables.getQueueByAlias name = some queue) (enabled : queue.enabled = true) :
    enterFrame limits tables bytes name depth ≠ .refused 404 "queue not found" ∧
      (bytes ≤ limits.maxBytes → depth ≤ 2 →
        enterFrame limits tables bytes name depth = .entered queue) := by
  simp only [enterFrame, found, enabled, Bool.not_true, Bool.false_eq_true, if_false]
  constructor
  · split
    · simp
    · split <;> simp
  · intro fits shallow
    have notLarge : ¬bytes > limits.maxBytes := by omega
    have notDeep : ¬depth > 2 := by omega
    simp [notLarge, notDeep]

theorem getQueueByAlias_of_entered
    (entered : enterFrame limits tables 0 name 0 = .entered queue) :
    ∃ byAlias, tables.getQueueByAlias name = some byAlias ∧ byAlias.enabled = true := by
  simp only [enterFrame] at entered
  split at entered
  · cases entered
  · split at entered
    · cases entered
    · rename_i byAlias found
      refine ⟨byAlias, found, ?_⟩
      cases enabled : byAlias.enabled with
      | true => rfl
      | false => simp [enabled] at entered

/-- The two resolvers agree on a name that `Lookup` answers exactly when an alias of an enabled
queue is what it is. A name, or a form built from name and alias, is answered 404 by `handle`. -/
theorem handle_agrees_with_lookup_iff (looked : lookup tables name = some queue) :
    HandleAgrees limits tables name queue ↔ NamedByAlias tables name := by
  constructor
  · intro agrees
    have entered := (agrees 0 0).2 (by omega) (by omega)
    exact namedByAlias_iff_getQueueByAlias.mpr (getQueueByAlias_of_entered entered)
  · intro named
    rcases namedByAlias_iff_getQueueByAlias.mp named with ⟨byAlias, found, enabled⟩
    have same := lookup_eq_of_getQueueByAlias found enabled looked
    subst same
    intro bytes depth
    exact enterFrame_of_getQueueByAlias found enabled

end Agreement

theorem local_ne : "local" ≠ "" := by
  decide

/-- A store with one queue, `itres` with alias `coder`. -/
def coderTables : QueueTables where
  queues := [⟨1, "itres", "coder", true, 5, "", 0⟩]
  steps := [(1, ⟨0, "local", 1, by decide⟩)]
  aliases := []
  queues_id_nodup := by decide
  queues_alias_nodup := by decide
  aliases_nodup := by decide
  aliases_owner := by decide

/-- The limits of an engine without settings. -/
def defaultLimits : Limits := ⟨16 * 2 ^ 20, 200, by decide, by decide⟩

/-- Limits that one job reaches. -/
def tightLimits : Limits := ⟨16 * 2 ^ 20, 1, by decide, by decide⟩

theorem handle_agrees_with_lookup_coder :
    HandleAgrees defaultLimits coderTables "coder" (coderTables.loadQueueKids
        ⟨1, "itres", "coder", true, 5, "", 0⟩) ↔ NamedByAlias coderTables "coder" :=
  handle_agrees_with_lookup_iff (by decide)

/-- `Lookup` answers `itres-coder`, and a `handle` call with that name answers 404. -/
theorem handle_not_found_itres_coder :
    ¬∀ limits tables name queue, lookup tables name = some queue →
      HandleAgrees limits tables name queue := by
  intro claim
  have looked : lookup coderTables "itres-coder" =
      some (coderTables.loadQueueKids ⟨1, "itres", "coder", true, 5, "", 0⟩) := by decide
  have agrees := claim defaultLimits coderTables "itres-coder" _ looked 0 0
  exact agrees.1 (by decide)

end MikroLLM.Queue
