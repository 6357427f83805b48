import Mathlib.Data.Int.Notation
import Mathlib.Data.List.Basic

/-!
# Queues and their jobs

The data of package `domain` that the queue engine and its store share. Row
identifiers and sequence numbers are natural numbers, the integers an operator
types in are integers.
-/

namespace MikroLLM.Domain

abbrev QueueId := ℕ

abbrev JobId := ℕ

/-- One step of a queue: a model alias and how many jobs it may run at once.
`SaveQueue` skips steps with a blank alias, so no stored step has one. -/
structure QueueStep where
  pos : ℕ
  modelAlias : String
  maxConcurrent : ℤ
  modelAlias_ne : modelAlias ≠ ""
  deriving DecidableEq

/-- A queue with its steps and extra aliases, as `GetQueue` returns it. -/
structure Queue where
  id : QueueId
  name : String
  aliasName : String
  enabled : Bool
  overflowAfter : ℤ
  overflowAlias : String
  maxWaitMS : ℤ
  steps : List QueueStep
  extraAliases : List String
  deriving DecidableEq

/-- The values of the column `status`. -/
inductive JobStatus
  | waiting
  | running
  | done
  | error
  | dropped
  | overflow
  | canceled
  deriving DecidableEq, Repr

/-- `status IN ('waiting','running')`. -/
def JobStatus.isActive (status : JobStatus) : Bool :=
  status = .waiting || status = .running

/-- A job, both as the engine holds it and as a row of `queue_jobs`. -/
structure QueueJob where
  id : JobId
  queueId : QueueId
  seq : ℕ
  status : JobStatus
  aliasName : String
  assignedModel : String
  assignedBackend : String
  provider : String
  keyPrefix : String
  path : String
  bytes : ℕ
  error : String
  createdAt : ℕ
  finishedAt : Option ℕ
  deriving DecidableEq, Repr

end MikroLLM.Domain
