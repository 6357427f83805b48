import MikroLLM.Go.Http
import MikroLLM.Queue.State

/-!
# The steps of the queue engine

A step is what one goroutine does between two points where another one can act:
a critical section of `e.mu`, one statement of the store, one access to a job
outside the lock, one send or receive. The second critical section of `dispatch`
is three steps, because `dropWaiter` writes the status of a job without the lock
and can do so in its middle.

Everything a step does not determine itself is part of the action: the order in
which Go iterates over the map of waiters, the answers of `TryRoute`, what
`Forward` returned, whether a write of the store succeeded, how much time passed.
-/

namespace MikroLLM.Queue

open Domain Store Go

/-- The steps of a `handle` call. -/
inductive HandleStep
  | arrive (request : Request)
  | enter
  | counts
  | overflowSelect
  | overflowInsert (ok : Bool)
  | overflowLookup
  | overflowForward (wrote : Bool) (result : Forwarded)
  | overflowSave (ok : Bool)
  | insertSelect
  | insertWrite (ok : Bool)
  | register
  | receive
  | expire
  | checkExpired
  | answerTimeout
  | unwind (ok : Bool)

/-- The steps of `dispatch`. -/
inductive DispatchStep
  | enter
  | top (order : List JobId)
  | pick (route : String → Option (String × String))
  | check
  | mark
  | copy
  | save (ok : Bool)

/-- The steps of `purgeIfNeeded`, `PurgeFinishedQueueJobs` and `dropWaiter`. -/
inductive PurgeStep
  | stats
  | aged
  | queues
  | surplus
  | delete
  | oldest
  | next
  | dropLock
  | dropMark
  | dropCopy
  | dropSave (ok : Bool)
  | dropComplete

/-- The steps of `run` and `finish`. -/
inductive RunStep
  | start
  | write
  | return (result : Forwarded)
  | fail
  | finishLock
  | finishCopy
  | finishSave (ok : Bool)
  | finishComplete

/-- The steps of `Loop`. -/
inductive LoopStep
  | tick
  | list
  | next

/-- A step of one goroutine; or time passes, or an operator edits the queues. -/
inductive Action
  | advance (seconds : ℕ)
  | editQueues (tables : QueueTables)
  | handle (call : CallId) (step : HandleStep)
  | dispatch (thread : Thread) (step : DispatchStep)
  | purge (thread : Thread) (step : PurgeStep)
  | run (job : JobId) (step : RunStep)
  | loop (step : LoopStep)

/-- An operator edits the queues. -/
def Action.editsQueues : Action → Bool
  | .editQueues _ => true
  | _ => false

/-- The cap of a step: `max_concurrent`, and one when that is not positive. -/
def stepCap (step : QueueStep) : ℤ :=
  if step.maxConcurrent ≤ 0 then 1 else step.maxConcurrent

/-- `pickStep`: the first step with a free slot in the snapshot whose model has a route. -/
def pickStep (queue : Queue) (snapshot : String → ℤ) (route : String → Option (String × String)) :
    Option Pick :=
  queue.steps.findSome? fun step =>
    if snapshot step.modelAlias ≥ stepCap step then none
    else (route step.modelAlias).map fun answer =>
      ⟨step.modelAlias, answer.1, answer.2, stepCap step⟩

/-- The end of one iteration of the purge loop, or of the timeout branch. -/
def afterDrop (limits : Limits) : AfterDrop → Routine
  | .timeout => .idle
  | .purge rest jobs bytes =>
      if jobs < limits.maxJobs ∧ bytes < limits.maxBytes then .idle
      else .purgeNext rest jobs bytes

/-- What the tests of `handle` after `counts` decide. -/
inductive Admission
  | overflow
  | full
  | accepted
  deriving DecidableEq

/-- The admission tests of `handle`. -/
def admission (limits : Limits) (state : State) (frame : Call) : Admission :=
  let queue := frame.queue
  let waiting : ℤ := state.count queue.id .waiting
  let running : ℤ := state.count queue.id .running
  if queue.overflowAfter > 0 ∧ waiting ≥ queue.overflowAfter ∧ queue.overflowAlias ≠ "" ∧
      queue.overflowAlias ≠ frame.name then
    .overflow
  else if queue.overflowAfter = 0 ∧ running + waiting ≥ limits.maxJobs then .full
  else .accepted

/-- The job after an overflow request was forwarded. -/
def overflowJob (clock : ℕ) (job : QueueJob) (result : Forwarded) : QueueJob :=
  { job with
    finishedAt := some clock
    assignedBackend := result.backend
    provider := result.provider
    status := if result.err.isSome ∧ result.status = 0 then .error
      else if result.status ≥ 400 then .error else .done
    error := if result.err.isSome ∧ result.status = 0 then result.err.getD "" else job.error }

/-- The overflow job of a frame whose nested `handle` call returned. -/
def unwoundJob (clock : ℕ) (job : QueueJob) : QueueJob :=
  { job with finishedAt := some clock, status := .overflow }

/-- `Engine.handle`. -/
def stepHandle (limits : Limits) (state : State) (c : CallId) : HandleStep → Option State
  | .arrive request =>
      match (state.calls c).pc with
      | .idle => some (state.setCall c ((state.calls c).arrive request))
      | _ => none
  | .enter =>
      match (state.calls c).pc with
      | .enter =>
          let frame := state.calls c
          match enterFrame limits state.tables frame.request.bytes frame.name frame.depth with
          | .refused code message => some (state.answer c (.error code message))
          | .entered queue =>
              some ((state.setCall c (frame.enterQueue queue)).setRoutine (.call c) .purgeStats)
      | _ => none
  | .counts =>
      match (state.calls c).pc, state.routines (.call c), state.lock with
      | .counts, .idle, none =>
          match admission limits state (state.calls c) with
          | .overflow => some (state.setPc c .overflowSelect)
          | .full => some (state.answer c (.error 503 "queue full"))
          | .accepted => some (state.setPc c .insertSelect)
      | _, _, _ => none
  | .overflowSelect =>
      match (state.calls c).pc with
      | .overflowSelect =>
          let frame := state.calls c
          let job := state.newJob frame .overflow frame.queue.overflowAlias
          some ((state.allocate c job).setPc c (.overflowInsert state.nextJob))
      | _ => none
  | .overflowInsert ok =>
      match (state.calls c).pc with
      | .overflowInsert j =>
          let inserted := if ok then state.insertRow (state.heap j) else state
          some (inserted.setPc c (.overflowLookup j))
      | _ => none
  | .overflowLookup =>
      match (state.calls c).pc with
      | .overflowLookup j =>
          let frame := state.calls c
          match lookup state.tables frame.queue.overflowAlias with
          | some _ => some (state.setCall c (frame.nest j))
          | none => some (state.setPc c (.overflowForward j))
      | _ => none
  | .overflowForward wrote result =>
      match (state.calls c).pc with
      | .overflowForward j =>
          let frame := state.calls c
          let answered := if wrote then frame.respond .forward else frame
          let job := overflowJob state.clock (state.heap j) result
          some ((state.setJob j job).setCall c (answered.goto (.overflowSave j)))
      | _ => none
  | .overflowSave ok =>
      match (state.calls c).pc with
      | .overflowSave j => some ((state.saveJob ok (state.heap j)).setPc c .unwind)
      | _ => none
  | .insertSelect =>
      match (state.calls c).pc with
      | .insertSelect =>
          let job := state.newJob (state.calls c) .waiting ""
          some ((state.allocate c job).setPc c (.insertWrite state.nextJob))
      | _ => none
  | .insertWrite ok =>
      match (state.calls c).pc with
      | .insertWrite j =>
          if ok then some ((state.insertRow (state.heap j)).setPc c (.register j))
          else some (state.answer c (.error 500 "insert failed"))
      | _ => none
  | .register =>
      match (state.calls c).pc, state.lock with
      | .register j, none =>
          let frame := state.calls c
          some (((state.setRegistered j true).setCall c (frame.await j)).setRoutine (.call c)
            (.dispatchEnter frame.queue.id))
      | _, _ => none
  | .receive =>
      match (state.calls c).pc, state.routines (.call c) with
      | .select j, .idle => if state.closed j then some (state.setPc c .unwind) else none
      | .await j, .idle => if state.closed j then some (state.setPc c .unwind) else none
      | _, _ => none
  | .expire =>
      match (state.calls c).pc, state.routines (.call c) with
      | .select j, .idle => some (state.setPc c (.expired j))
      | _, _ => none
  | .checkExpired =>
      match (state.calls c).pc, state.lock with
      | .expired j, none =>
          if (state.heap j).status = .waiting then
            some ((state.setPc c (.timeout j)).setRoutine (.call c) (.dropLock j "timeout" .timeout))
          else some (state.setPc c (.await j))
      | _, _ => none
  | .answerTimeout =>
      match (state.calls c).pc, state.routines (.call c) with
      | .timeout _, .idle =>
          some (state.answer c (.error 504 "queue wait timeout"))
      | _, _ => none
  | .unwind ok =>
      match (state.calls c).pc with
      | .unwind =>
          let frame := state.calls c
          match frame.frames with
          | [] => some (state.setPc c .returned)
          | j :: outer =>
              let job := unwoundJob state.clock (state.heap j)
              some (((state.setJob j job).saveJob ok job).setCall c (frame.unnest outer))
      | _ => none

/-- The job that `dispatch` switches to running. -/
def markedJob (pick : Pick) (job : QueueJob) : QueueJob :=
  { job with
    status := .running
    assignedModel := pick.model
    assignedBackend := pick.backend
    provider := pick.provider }

/-- `Engine.dispatch`, by whichever goroutine called it. -/
def stepDispatch (state : State) (t : Thread) : DispatchStep → Option State
  | .enter =>
      match state.routines t with
      | .dispatchEnter queueId =>
          match state.tables.getQueue queueId with
          | some queue => some (state.setRoutine t (.dispatchTop queue))
          | none => some (state.setRoutine t .idle)
      | _ => none
  | .top order =>
      match state.routines t, state.lock with
      | .dispatchTop queue, none =>
          if order.Perm state.waiters then
            match state.waitingLocked queue.id order with
            | [] => some (state.setRoutine t .idle)
            | head :: _ => some (state.setRoutine t (.dispatchPick queue head state.inflight))
          else none
      | _, _ => none
  | .pick route =>
      match state.routines t with
      | .dispatchPick queue head snapshot =>
          match pickStep queue snapshot route with
          | none => some (state.setRoutine t .idle)
          | some pick => some (state.setRoutine t (.dispatchCheck queue head pick))
      | _ => none
  | .check =>
      match state.routines t, state.lock with
      | .dispatchCheck queue head pick, none =>
          if (state.heap head).status ≠ .waiting ∨ state.inflight pick.model ≥ pick.cap then
            some (state.setRoutine t (.dispatchTop queue))
          else some ((state.setLock (some t)).setRoutine t (.dispatchMark queue head pick))
      | _, _ => none
  | .mark =>
      match state.routines t with
      | .dispatchMark queue head pick =>
          let taken := state.setInflight pick.model (state.inflight pick.model + 1)
          some (((taken.setJob head (markedJob pick (state.heap head))).setRun head
            (.dispatched t)).setRoutine t (.dispatchCopy queue head))
      | _ => none
  | .copy =>
      match state.routines t with
      | .dispatchCopy queue head =>
          some ((state.setLock none).setRoutine t (.dispatchSave queue head (state.heap head)))
      | _ => none
  | .save ok =>
      match state.routines t with
      | .dispatchSave queue head copied =>
          some (((state.saveJob ok copied).setRun head .start).setRoutine t (.dispatchTop queue))
      | _ => none

/-- The job that `dropWaiter` marks. -/
def droppedJob (clock : ℕ) (reason : String) (job : QueueJob) : QueueJob :=
  { job with status := .dropped, error := reason, finishedAt := some clock }

/-- `Engine.purgeIfNeeded`, `Store.PurgeFinishedQueueJobs` and `Engine.dropWaiter`. -/
def stepPurge (limits : Limits) (state : State) (t : Thread) : PurgeStep → Option State
  | .stats =>
      match state.routines t with
      | .purgeStats =>
          let stats := waitingStats state.nextJob state.rows
          if stats.1 ≥ limits.maxJobs ∨ stats.2 ≥ limits.maxBytes then
            some (state.setRoutine t (.purgeOldest stats.1 stats.2))
          else some (state.setRoutine t .purgeAged)
      | _ => none
  | .aged =>
      match state.routines t with
      | .purgeAged =>
          some ((state.setRows (deleteAged state.rows (state.clock - 2 * 3600))).setRoutine t
            .purgeQueues)
      | _ => none
  | .queues =>
      match state.routines t with
      | .purgeQueues =>
          some (state.setRoutine t (.purgeSurplus (distinctQueues state.nextJob state.rows)))
      | _ => none
  | .surplus =>
      match state.routines t with
      | .purgeSurplus [] => some (state.setRoutine t .idle)
      | .purgeSurplus (queueId :: queues) =>
          some (state.setRoutine t
            (.purgeDelete (surplus state.nextJob state.rows 40 queueId) queues))
      | _ => none
  | .delete =>
      match state.routines t with
      | .purgeDelete [] queues => some (state.setRoutine t (.purgeSurplus queues))
      | .purgeDelete (job :: extra) queues =>
          some ((state.setRows (deleteJob state.rows job)).setRoutine t (.purgeDelete extra queues))
      | _ => none
  | .oldest =>
      match state.routines t with
      | .purgeOldest jobs bytes =>
          some (state.setRoutine t (.purgeNext (oldestWaiting state.nextJob state.rows 8) jobs bytes))
      | _ => none
  | .next =>
      match state.routines t with
      | .purgeNext [] _ _ => some (state.setRoutine t .idle)
      | .purgeNext (job :: rest) jobs bytes =>
          some (state.setRoutine t
            (.dropLock job.id "queue size limit" (.purge rest (jobs - 1) (bytes - job.bytes))))
      | _ => none
  | .dropLock =>
      match state.routines t, state.lock with
      | .dropLock j reason after, none =>
          if state.registered j then
            some (((state.setRegistered j false).setDrop j (.mark reason)).setRoutine t
              (.dropping j after))
          else some (state.setRoutine t (afterDrop limits after))
      | _, _ => none
  | .dropMark =>
      match state.routines t with
      | .dropping j _ =>
          match state.drops j with
          | .mark reason =>
              some ((state.setJob j (droppedJob state.clock reason (state.heap j))).setDrop j .copy)
          | _ => none
      | _ => none
  | .dropCopy =>
      match state.routines t with
      | .dropping j _ =>
          match state.drops j with
          | .copy => some (state.setDrop j (.save (state.heap j)))
          | _ => none
      | _ => none
  | .dropSave ok =>
      match state.routines t with
      | .dropping j _ =>
          match state.drops j with
          | .save copied => some ((state.saveJob ok copied).setDrop j .complete)
          | _ => none
      | _ => none
  | .dropComplete =>
      match state.routines t with
      | .dropping j after =>
          match state.drops j with
          | .complete =>
              some (((state.complete j).setDrop j .finished).setRoutine t (afterDrop limits after))
          | _ => none
      | _ => none

/-- The job after `Forward` returned to `run`. -/
def returnedJob (clock : ℕ) (job : QueueJob) (wrote : Bool) (result : Forwarded) : QueueJob :=
  let failed := result.err.isSome ∧ wrote = false
  { job with
    finishedAt := some clock
    assignedBackend := if result.backend ≠ "" then result.backend else job.assignedBackend
    provider := if result.provider ≠ "" then result.provider else job.provider
    status := if failed then .error else if result.status ≥ 400 then .error else .done
    error := if failed then result.err.getD ""
      else if result.status ≥ 400 ∧ job.error = "" then statusText result.status else job.error }

/-- `Engine.run` and `Engine.finish`. -/
def stepRun (state : State) (j : JobId) : RunStep → Option State
  | .start =>
      match state.runs j with
      | .start => some ((state.callForward j (state.heap j).assignedModel).setRun j (.inForward false))
      | _ => none
  | .write =>
      match state.runs j with
      | .inForward false => some ((state.send (state.writer j) .forward).setRun j (.inForward true))
      | _ => none
  | .return result =>
      match state.runs j with
      | .inForward wrote =>
          let returned := state.setJob j (returnedJob state.clock (state.heap j) wrote result)
          match result.err, wrote with
          | some message, false => some (returned.setRun j (.failing message))
          | _, _ => some (returned.setRun j .finishLock)
      | _ => none
  | .fail =>
      match state.runs j with
      | .failing message =>
          some ((state.send (state.writer j) (.error 502 message)).setRun j .finishLock)
      | _ => none
  | .finishLock =>
      match state.runs j, state.lock with
      | .finishLock, none =>
          let model := (state.heap j).assignedModel
          let released := if model ≠ "" ∧ state.inflight model > 0 then
            state.setInflight model (state.inflight model - 1) else state
          some ((released.setRegistered j false).setRun j .finishCopy)
      | _, _ => none
  | .finishCopy =>
      match state.runs j with
      | .finishCopy => some (state.setRun j (.finishSave (state.heap j)))
      | _ => none
  | .finishSave ok =>
      match state.runs j with
      | .finishSave copied => some ((state.saveJob ok copied).setRun j .finishComplete)
      | _ => none
  | .finishComplete =>
      match state.runs j with
      | .finishComplete =>
          some (((state.complete j).setRun j .exited).setRoutine (.run j)
            (.dispatchEnter (state.heap j).queueId))
      | _ => none

/-- `Engine.Loop`. -/
def stepLoop (state : State) : LoopStep → Option State
  | .tick =>
      match state.loopPc with
      | .waiting => some ((state.setLoop .purging).setRoutine .loop .purgeStats)
      | _ => none
  | .list =>
      match state.loopPc, state.routines .loop with
      | .purging, .idle =>
          some (state.setLoop (.dispatching (state.tables.listQueues.map (·.id))))
      | _, _ => none
  | .next =>
      match state.loopPc, state.routines .loop with
      | .dispatching [], .idle => some (state.setLoop .waiting)
      | .dispatching (queueId :: rest), .idle =>
          some ((state.setLoop (.dispatching rest)).setRoutine .loop (.dispatchEnter queueId))
      | _, _ => none

/-- One step of the engine. -/
def step (limits : Limits) (state : State) : Action → Option State
  | .advance seconds => some { state with clock := state.clock + seconds }
  | .editQueues tables => some { state with tables := tables }
  | .handle call step => stepHandle limits state call step
  | .dispatch thread step => stepDispatch state thread step
  | .purge thread step => stepPurge limits state thread step
  | .run job step => stepRun state job step
  | .loop step => stepLoop state step

/-- The steps of `purgeIfNeeded` below the limits, with this many queues that have a row. -/
def quietPurge (queues : ℕ) : List PurgeStep :=
  [.stats, .aged, .queues] ++ (List.replicate queues [.surplus, .delete]).flatten ++ [.surplus]

/-- A call that its queue accepts, up to the `dispatch` after its registration. -/
def joins (c : CallId) (request : Request) (queues : ℕ) : List Action :=
  [.handle c (.arrive request), .handle c .enter] ++ (quietPurge queues).map (.purge (.call c)) ++
    [.handle c .counts, .handle c .insertSelect, .handle c (.insertWrite true),
      .handle c .register, .dispatch (.call c) .enter]

/-- One round of `dispatch` that starts a job, when every model has a route. -/
def dispatches (t : Thread) (order : List JobId) : List Action :=
  let steps : List DispatchStep :=
    [.top order, .pick fun _ => some ("backend", "provider"), .check, .mark, .copy, .save true]
  steps.map (.dispatch t)

/-- One call of `dropWaiter` that finds the waiter. -/
def dropsWaiter (t : Thread) : List Action :=
  let steps : List PurgeStep := [.dropLock, .dropMark, .dropCopy, .dropSave true, .dropComplete]
  steps.map (.purge t)

end MikroLLM.Queue
