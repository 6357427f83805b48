import Mathlib.Data.Nat.Count
import Mathlib.Tactic.Simps.Basic
import MikroLLM.Library.ExchangeSort
import MikroLLM.Queue.Lookup
import MikroLLM.Store.QueueJobs

/-!
# The state of the queue engine

The engine is a set of goroutines over one shared state: a `handle` call for each
request, a `run` goroutine for each dispatched job, and the `Loop`. Each of them
may be inside one of the routines they share: `dispatch`, `purgeIfNeeded` and
`dropWaiter`.

The state is what the goroutines share, and where each of them stands. A waiter
that `dropWaiter` took out of the map is in the hands of one goroutine only, as
a job that was dispatched is, so where these two stand is kept by job.
-/

namespace MikroLLM.Queue

open Domain Store Library

abbrev CallId := ℕ

/-- A goroutine. -/
inductive Thread
  | call (call : CallId)
  | run (job : JobId)
  | loop
  deriving DecidableEq

/-- A step that `pickStep` chose for a job. -/
structure Pick where
  model : String
  backend : String
  provider : String
  cap : ℤ

/-- What follows a `dropWaiter` call: the timeout branch of `handle`, or the purge with
the jobs still to drop and the totals left. -/
inductive AfterDrop
  | timeout
  | purge (rest : List QueueJob) (jobs bytes : ℤ)

/-- Where a goroutine stands inside the routines that all of them share. -/
inductive Routine
  | idle
  | dispatchEnter (queueId : QueueId)
  | dispatchTop (queue : Queue)
  | dispatchPick (queue : Queue) (head : JobId) (snapshot : String → ℤ)
  | dispatchCheck (queue : Queue) (head : JobId) (pick : Pick)
  | dispatchMark (queue : Queue) (head : JobId) (pick : Pick)
  | dispatchCopy (queue : Queue) (head : JobId)
  | dispatchSave (queue : Queue) (head : JobId) (copied : QueueJob)
  | purgeStats
  | purgeAged
  | purgeQueues
  | purgeSurplus (queues : List QueueId)
  | purgeDelete (extra : List JobId) (queues : List QueueId)
  | purgeOldest (jobs bytes : ℤ)
  | purgeNext (rest : List QueueJob) (jobs bytes : ℤ)
  | dropLock (job : JobId) (reason : String) (after : AfterDrop)
  | dropping (job : JobId) (after : AfterDrop)

/-- Where the `run` goroutine of a job stands. A job is `dispatched` from the moment a
dispatcher takes its slot until that dispatcher starts the goroutine. -/
inductive RunPc
  | absent
  | dispatched (dispatcher : Thread)
  | start
  | inForward (wrote : Bool)
  | failing (message : String)
  | finishLock
  | finishCopy
  | finishSave (copied : QueueJob)
  | finishComplete
  | exited
  deriving DecidableEq

/-- How far `dropWaiter` got with a waiter it took out of the map. -/
inductive DropPc
  | absent
  | mark (reason : String)
  | copy
  | save (copied : QueueJob)
  | complete
  | finished
  deriving DecidableEq

/-- Where a `handle` call stands in its innermost frame. -/
inductive CallPc
  | idle
  | enter
  | counts
  | overflowSelect
  | overflowInsert (job : JobId)
  | overflowLookup (job : JobId)
  | overflowForward (job : JobId)
  | overflowSave (job : JobId)
  | insertSelect
  | insertWrite (job : JobId)
  | register (job : JobId)
  | select (job : JobId)
  | expired (job : JobId)
  | timeout (job : JobId)
  | await (job : JobId)
  | unwind
  | returned
  deriving DecidableEq

/-- What is written to the response of a call. -/
inductive Response
  | forward
  | error (code : ℕ) (message : String)
  deriving DecidableEq

/-- The arguments of `Handle`. -/
structure Request where
  name : String
  keyPrefix : String
  path : String
  bytes : ℕ

/-- A `handle` call: its request, the variables of its innermost frame, the overflow jobs of
the frames around it, and what has been written to its response. -/
structure Call where
  pc : CallPc
  request : Request
  name : String
  depth : ℕ
  queue : Queue
  waiter : Option JobId
  frames : List JobId
  sent : List Response

namespace Call

/-- Go on to another place. -/
@[simps -fullyApplied]
def goto (call : Call) (pc : CallPc) : Call :=
  { call with pc := pc }

/-- Write to the response. -/
@[simps -fullyApplied]
def respond (call : Call) (response : Response) : Call :=
  { call with sent := call.sent ++ [response] }

/-- `Handle` starts the outermost frame. -/
@[simps -fullyApplied]
def arrive (call : Call) (request : Request) : Call :=
  { call with pc := .enter, request := request, name := request.name }

/-- The frame works on a queue. -/
@[simps -fullyApplied]
def enterQueue (call : Call) (queue : Queue) : Call :=
  { call with pc := .counts, queue := queue }

/-- The frame calls `handle` again, with its overflow alias. -/
@[simps -fullyApplied]
def nest (call : Call) (j : JobId) : Call :=
  { call with
    pc := .enter
    name := call.queue.overflowAlias
    depth := call.depth + 1
    frames := j :: call.frames }

/-- The nested `handle` call has returned to an overflow frame. -/
@[simps -fullyApplied]
def unnest (call : Call) (outer : List JobId) : Call :=
  { call with frames := outer }

/-- The frame waits for its job. -/
@[simps -fullyApplied]
def await (call : Call) (j : JobId) : Call :=
  { call with pc := .select j, waiter := some j }

end Call

/-- What `Forward` returned. -/
structure Forwarded where
  backend : String
  provider : String
  status : ℕ
  err : Option String

/-- Where the goroutine of `Loop` stands. -/
inductive LoopPc
  | waiting
  | purging
  | dispatching (rest : List QueueId)

/-- The shared state and the state of every goroutine. `heap` and `writer` are the job and the
response writer a waiter points to; they outlive its entry in the map `registered`. `inserts` is
the history of the `INSERT` statements, `forwards` that of the models `Forward` was called for. -/
structure State where
  tables : QueueTables
  rows : JobTable
  inserts : List QueueJob
  nextJob : JobId
  clock : ℕ
  lock : Option Thread
  inflight : String → ℤ
  registered : JobId → Bool
  heap : JobId → QueueJob
  writer : JobId → CallId
  closed : JobId → Bool
  calls : CallId → Call
  runs : JobId → RunPc
  drops : JobId → DropPc
  forwards : JobId → List String
  routines : Thread → Routine
  loopPc : LoopPc

namespace State

/-- Change where a goroutine stands inside a shared routine. -/
@[simps -fullyApplied]
def setRoutine (state : State) (thread : Thread) (routine : Routine) : State :=
  { state with routines := Function.update state.routines thread routine }

/-- Change a call. -/
@[simps -fullyApplied]
def setCall (state : State) (call : CallId) (next : Call) : State :=
  { state with calls := Function.update state.calls call next }

/-- Change where a call stands. -/
@[simps -fullyApplied]
def setPc (state : State) (call : CallId) (pc : CallPc) : State :=
  { state with calls := Function.update state.calls call ((state.calls call).goto pc) }

/-- Write to the response of a call. -/
@[simps -fullyApplied]
def send (state : State) (call : CallId) (response : Response) : State :=
  { state with calls := Function.update state.calls call ((state.calls call).respond response) }

/-- Write to the response of a call and return from its innermost frame. -/
@[simps -fullyApplied]
def answer (state : State) (call : CallId) (response : Response) : State :=
  { state with
    calls := Function.update state.calls call (((state.calls call).respond response).goto .unwind) }

/-- Change where the `run` goroutine of a job stands. -/
@[simps -fullyApplied]
def setRun (state : State) (job : JobId) (pc : RunPc) : State :=
  { state with runs := Function.update state.runs job pc }

/-- Change how far a job is dropped. -/
@[simps -fullyApplied]
def setDrop (state : State) (job : JobId) (pc : DropPc) : State :=
  { state with drops := Function.update state.drops job pc }

/-- Change a job in memory. -/
@[simps -fullyApplied]
def setJob (state : State) (job : JobId) (next : QueueJob) : State :=
  { state with heap := Function.update state.heap job next }

/-- Put a waiter into the map of waiters, or take it out. -/
@[simps -fullyApplied]
def setRegistered (state : State) (job : JobId) (present : Bool) : State :=
  { state with registered := Function.update state.registered job present }

/-- `waiter.complete`. -/
@[simps -fullyApplied]
def complete (state : State) (job : JobId) : State :=
  { state with closed := Function.update state.closed job true }

/-- Change the number of jobs in flight of a model. -/
@[simps -fullyApplied]
def setInflight (state : State) (model : String) (jobs : ℤ) : State :=
  { state with inflight := Function.update state.inflight model jobs }

/-- Record that `Forward` was called for a job. -/
@[simps -fullyApplied]
def callForward (state : State) (job : JobId) (model : String) : State :=
  { state with forwards := Function.update state.forwards job (state.forwards job ++ [model]) }

/-- Change where the loop stands. -/
@[simps -fullyApplied]
def setLoop (state : State) (pc : LoopPc) : State :=
  { state with loopPc := pc }

/-- Take the lock, or give it back. -/
@[simps -fullyApplied]
def setLock (state : State) (holder : Option Thread) : State :=
  { state with lock := holder }

/-- Change the rows of the job table. -/
@[simps -fullyApplied]
def setRows (state : State) (rows : JobTable) : State :=
  { state with rows := rows }

/-- Write a job to its row; a failed write is ignored. -/
@[simps -fullyApplied]
def saveJob (state : State) (ok : Bool) (job : QueueJob) : State :=
  { state with rows := if ok then updateJob state.rows job else state.rows }

/-- Insert the row of a job. -/
@[simps -fullyApplied]
def insertRow (state : State) (job : QueueJob) : State :=
  { state with rows := insertJob state.rows job, inserts := state.inserts ++ [job] }

/-- Take a job into memory: its identifier is used up, its writer is the call's. -/
@[simps -fullyApplied]
def allocate (state : State) (call : CallId) (job : QueueJob) : State :=
  { state with
    nextJob := state.nextJob + 1
    heap := Function.update state.heap state.nextJob job
    writer := Function.update state.writer state.nextJob call }

/-- The keys of the map of waiters. -/
def waiters (state : State) : List JobId :=
  (List.range state.nextJob).filter state.registered

/-- `waitingLocked`, for one iteration order of the map of waiters. -/
def waitingLocked (state : State) (queueId : QueueId) (order : List JobId) : List JobId :=
  exchangeSort (fun job => (state.heap job).seq)
    (order.filter fun job =>
      (state.heap job).queueId = queueId && (state.heap job).status = .waiting)

/-- The waiters of a queue in one status; `counts` takes it for waiting and for running. -/
def count (state : State) (queueId : QueueId) (status : JobStatus) : ℕ :=
  Nat.count
    (fun job => state.registered job = true ∧ (state.heap job).queueId = queueId ∧
      (state.heap job).status = status) state.nextJob

/-- `newJob` together with the first statement of `InsertQueueJob`. -/
def newJob (state : State) (call : Call) (status : JobStatus) (assignedModel : String) :
    QueueJob where
  id := state.nextJob
  queueId := call.queue.id
  seq := nextSeq state.nextJob state.rows call.queue.id
  status := status
  aliasName := call.name
  assignedModel := assignedModel
  assignedBackend := ""
  provider := ""
  keyPrefix := call.request.keyPrefix
  path := call.request.path
  bytes := call.request.bytes
  error := ""
  createdAt := state.clock
  finishedAt := none

end State

/-- The row that `ResetStaleQueueJobs` leaves. -/
def resetStale (clock : ℕ) (row : QueueJob) : QueueJob :=
  if row.status.isActive then
    { row with status := .dropped, error := "шлюз перезапущен", finishedAt := some clock }
  else row

/-- A call that has not arrived. -/
def Call.idle : Call where
  pc := .idle
  request := ⟨"", "", "", 0⟩
  name := ""
  depth := 0
  queue := ⟨0, "", "", false, 0, "", 0, [], []⟩
  waiter := none
  frames := []
  sent := []

/-- The engine that `New` returns over a store with these queues and the rows of earlier
processes, `history`. -/
def start (tables : QueueTables) (history : List QueueJob) (clock : ℕ) : State where
  tables := tables
  rows := fun id => (history[id]?).map fun row => resetStale clock { row with id := id }
  inserts := []
  nextJob := history.length
  clock := clock
  lock := none
  inflight := fun _ => 0
  registered := fun _ => false
  heap := fun id => ⟨id, 0, 0, .overflow, "", "", "", "", "", "", 0, "", 0, none⟩
  writer := fun _ => 0
  closed := fun _ => false
  calls := fun _ => Call.idle
  runs := fun _ => .absent
  drops := fun _ => .absent
  forwards := fun _ => []
  routines := fun _ => .idle
  loopPc := .waiting

end MikroLLM.Queue
