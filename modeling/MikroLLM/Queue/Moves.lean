import MikroLLM.Queue.Engine

/-!
# What a step can do

One constructor for each branch of the steps, with the facts under which it is
taken and the state it leaves. Every invariant is proved by cases on these.
-/

namespace MikroLLM.Queue

open Domain Store Go

variable {limits : Limits} {state next : State}

/-- The branches of `stepHandle`. -/
inductive HandleMove (limits : Limits) (state : State) (c : CallId) : HandleStep → State → Prop
  | arrive {request : Request} (pc : (state.calls c).pc = .idle) :
      HandleMove limits state c (.arrive request)
        (state.setCall c ((state.calls c).arrive request))
  | refused {code : ℕ} {message : String} (pc : (state.calls c).pc = .enter)
      (entry : enterFrame limits state.tables (state.calls c).request.bytes (state.calls c).name
        (state.calls c).depth = .refused code message) :
      HandleMove limits state c .enter (state.answer c (.error code message))
  | entered {queue : Queue} (pc : (state.calls c).pc = .enter)
      (entry : enterFrame limits state.tables (state.calls c).request.bytes (state.calls c).name
        (state.calls c).depth = .entered queue) :
      HandleMove limits state c .enter
        ((state.setCall c ((state.calls c).enterQueue queue)).setRoutine (.call c) .purgeStats)
  | toOverflow (pc : (state.calls c).pc = .counts) (idle : state.routines (.call c) = .idle)
      (free : state.lock = none) (admission : admission limits state (state.calls c) = .overflow) :
      HandleMove limits state c .counts (state.setPc c .overflowSelect)
  | full (pc : (state.calls c).pc = .counts) (idle : state.routines (.call c) = .idle)
      (free : state.lock = none) (admission : admission limits state (state.calls c) = .full) :
      HandleMove limits state c .counts
        (state.answer c (.error 503 "queue full"))
  | accepted (pc : (state.calls c).pc = .counts) (idle : state.routines (.call c) = .idle)
      (free : state.lock = none) (admission : admission limits state (state.calls c) = .accepted) :
      HandleMove limits state c .counts (state.setPc c .insertSelect)
  | overflowSelect (pc : (state.calls c).pc = .overflowSelect) :
      HandleMove limits state c .overflowSelect
        ((state.allocate c (state.newJob (state.calls c) .overflow
          (state.calls c).queue.overflowAlias)).setPc c (.overflowInsert state.nextJob))
  | overflowInserted {j : JobId} (pc : (state.calls c).pc = .overflowInsert j) :
      HandleMove limits state c (.overflowInsert true)
        ((state.insertRow (state.heap j)).setPc c (.overflowLookup j))
  | overflowNotInserted {j : JobId} (pc : (state.calls c).pc = .overflowInsert j) :
      HandleMove limits state c (.overflowInsert false) (state.setPc c (.overflowLookup j))
  | overflowNested {j : JobId} {queue : Queue} (pc : (state.calls c).pc = .overflowLookup j)
      (looked : lookup state.tables (state.calls c).queue.overflowAlias = some queue) :
      HandleMove limits state c .overflowLookup
        (state.setCall c ((state.calls c).nest j))
  | overflowDirect {j : JobId} (pc : (state.calls c).pc = .overflowLookup j)
      (looked : lookup state.tables (state.calls c).queue.overflowAlias = none) :
      HandleMove limits state c .overflowLookup (state.setPc c (.overflowForward j))
  | overflowForward {j : JobId} {wrote : Bool} {result : Forwarded}
      (pc : (state.calls c).pc = .overflowForward j) :
      HandleMove limits state c (.overflowForward wrote result)
        ((state.setJob j (overflowJob state.clock (state.heap j) result)).setCall c
          ((if wrote then (state.calls c).respond .forward else state.calls c).goto
            (.overflowSave j)))
  | overflowSave {j : JobId} {ok : Bool} (pc : (state.calls c).pc = .overflowSave j) :
      HandleMove limits state c (.overflowSave ok)
        ((state.saveJob ok (state.heap j)).setPc c .unwind)
  | insertSelect (pc : (state.calls c).pc = .insertSelect) :
      HandleMove limits state c .insertSelect
        ((state.allocate c (state.newJob (state.calls c) .waiting "")).setPc c
          (.insertWrite state.nextJob))
  | inserted {j : JobId} (pc : (state.calls c).pc = .insertWrite j) :
      HandleMove limits state c (.insertWrite true)
        ((state.insertRow (state.heap j)).setPc c (.register j))
  | notInserted {j : JobId} (pc : (state.calls c).pc = .insertWrite j) :
      HandleMove limits state c (.insertWrite false)
        (state.answer c (.error 500 "insert failed"))
  | register {j : JobId} (pc : (state.calls c).pc = .register j) (free : state.lock = none) :
      HandleMove limits state c .register
        (((state.setRegistered j true).setCall c ((state.calls c).await j)).setRoutine (.call c)
          (.dispatchEnter (state.calls c).queue.id))
  | receive {j : JobId} (pc : (state.calls c).pc = .select j ∨ (state.calls c).pc = .await j)
      (idle : state.routines (.call c) = .idle) (closed : state.closed j = true) :
      HandleMove limits state c .receive (state.setPc c .unwind)
  | expire {j : JobId} (pc : (state.calls c).pc = .select j)
      (idle : state.routines (.call c) = .idle) :
      HandleMove limits state c .expire (state.setPc c (.expired j))
  | stillWaiting {j : JobId} (pc : (state.calls c).pc = .expired j) (free : state.lock = none)
      (waiting : (state.heap j).status = .waiting) :
      HandleMove limits state c .checkExpired
        ((state.setPc c (.timeout j)).setRoutine (.call c) (.dropLock j "timeout" .timeout))
  | notWaiting {j : JobId} (pc : (state.calls c).pc = .expired j) (free : state.lock = none)
      (left : (state.heap j).status ≠ .waiting) :
      HandleMove limits state c .checkExpired (state.setPc c (.await j))
  | answerTimeout {j : JobId} (pc : (state.calls c).pc = .timeout j)
      (idle : state.routines (.call c) = .idle) :
      HandleMove limits state c .answerTimeout
        (state.answer c (.error 504 "queue wait timeout"))
  | returned {ok : Bool} (pc : (state.calls c).pc = .unwind)
      (outermost : (state.calls c).frames = []) :
      HandleMove limits state c (.unwind ok) (state.setPc c .returned)
  | unwound {ok : Bool} {j : JobId} {outer : List JobId} (pc : (state.calls c).pc = .unwind)
      (frames : (state.calls c).frames = j :: outer) :
      HandleMove limits state c (.unwind ok)
        (((state.setJob j (unwoundJob state.clock (state.heap j))).saveJob ok
          (unwoundJob state.clock (state.heap j))).setCall c ((state.calls c).unnest outer))

/-- The branches of `stepDispatch`. -/
inductive DispatchMove (state : State) (t : Thread) : DispatchStep → State → Prop
  | found {queueId : QueueId} {queue : Queue} (routine : state.routines t = .dispatchEnter queueId)
      (loaded : state.tables.getQueue queueId = some queue) :
      DispatchMove state t .enter (state.setRoutine t (.dispatchTop queue))
  | missing {queueId : QueueId} (routine : state.routines t = .dispatchEnter queueId)
      (absent : state.tables.getQueue queueId = none) :
      DispatchMove state t .enter (state.setRoutine t .idle)
  | noWaiter {order : List JobId} {queue : Queue} (routine : state.routines t = .dispatchTop queue)
      (free : state.lock = none) (perm : order.Perm state.waiters)
      (none : state.waitingLocked queue.id order = []) :
      DispatchMove state t (.top order) (state.setRoutine t .idle)
  | head {order others : List JobId} {queue : Queue} {head : JobId}
      (routine : state.routines t = .dispatchTop queue) (free : state.lock = none)
      (perm : order.Perm state.waiters)
      (first : state.waitingLocked queue.id order = head :: others) :
      DispatchMove state t (.top order)
        (state.setRoutine t (.dispatchPick queue head state.inflight))
  | noStep {route : String → Option (String × String)} {queue : Queue} {head : JobId}
      {snapshot : String → ℤ} (routine : state.routines t = .dispatchPick queue head snapshot)
      (none : pickStep queue snapshot route = none) :
      DispatchMove state t (.pick route) (state.setRoutine t .idle)
  | picked {route : String → Option (String × String)} {queue : Queue} {head : JobId}
      {snapshot : String → ℤ} {pick : Pick}
      (routine : state.routines t = .dispatchPick queue head snapshot)
      (chosen : pickStep queue snapshot route = some pick) :
      DispatchMove state t (.pick route) (state.setRoutine t (.dispatchCheck queue head pick))
  | retry {queue : Queue} {head : JobId} {pick : Pick}
      (routine : state.routines t = .dispatchCheck queue head pick) (free : state.lock = none)
      (stale : (state.heap head).status ≠ .waiting ∨ state.inflight pick.model ≥ pick.cap) :
      DispatchMove state t .check (state.setRoutine t (.dispatchTop queue))
  | checked {queue : Queue} {head : JobId} {pick : Pick}
      (routine : state.routines t = .dispatchCheck queue head pick) (free : state.lock = none)
      (waiting : (state.heap head).status = .waiting)
      (slot : state.inflight pick.model < pick.cap) :
      DispatchMove state t .check
        ((state.setLock (some t)).setRoutine t (.dispatchMark queue head pick))
  | mark {queue : Queue} {head : JobId} {pick : Pick}
      (routine : state.routines t = .dispatchMark queue head pick) :
      DispatchMove state t .mark
        ((((state.setInflight pick.model (state.inflight pick.model + 1)).setJob head
          (markedJob pick (state.heap head))).setRun head (.dispatched t)).setRoutine t
            (.dispatchCopy queue head))
  | copy {queue : Queue} {head : JobId} (routine : state.routines t = .dispatchCopy queue head) :
      DispatchMove state t .copy
        ((state.setLock none).setRoutine t (.dispatchSave queue head (state.heap head)))
  | save {queue : Queue} {head : JobId} {copied : QueueJob} {ok : Bool}
      (routine : state.routines t = .dispatchSave queue head copied) :
      DispatchMove state t (.save ok)
        (((state.saveJob ok copied).setRun head .start).setRoutine t (.dispatchTop queue))

/-- The branches of `stepPurge`. -/
inductive PurgeMove (limits : Limits) (state : State) (t : Thread) : PurgeStep → State → Prop
  | above (routine : state.routines t = .purgeStats)
      (limit : (waitingStats state.nextJob state.rows).1 ≥ limits.maxJobs ∨
        (waitingStats state.nextJob state.rows).2 ≥ limits.maxBytes) :
      PurgeMove limits state t .stats
        (state.setRoutine t (.purgeOldest (waitingStats state.nextJob state.rows).1
          (waitingStats state.nextJob state.rows).2))
  | under (routine : state.routines t = .purgeStats)
      (jobs : (waitingStats state.nextJob state.rows).1 < limits.maxJobs)
      (bytes : (waitingStats state.nextJob state.rows).2 < limits.maxBytes) :
      PurgeMove limits state t .stats (state.setRoutine t .purgeAged)
  | aged (routine : state.routines t = .purgeAged) :
      PurgeMove limits state t .aged
        ((state.setRows (deleteAged state.rows (state.clock - 2 * 3600))).setRoutine t .purgeQueues)
  | queues (routine : state.routines t = .purgeQueues) :
      PurgeMove limits state t .queues
        (state.setRoutine t (.purgeSurplus (distinctQueues state.nextJob state.rows)))
  | surplusDone (routine : state.routines t = .purgeSurplus []) :
      PurgeMove limits state t .surplus (state.setRoutine t .idle)
  | surplus {queueId : QueueId} {queues : List QueueId}
      (routine : state.routines t = .purgeSurplus (queueId :: queues)) :
      PurgeMove limits state t .surplus
        (state.setRoutine t (.purgeDelete (surplus state.nextJob state.rows 40 queueId) queues))
  | deleteDone {queues : List QueueId} (routine : state.routines t = .purgeDelete [] queues) :
      PurgeMove limits state t .delete (state.setRoutine t (.purgeSurplus queues))
  | delete {job : JobId} {extra : List JobId} {queues : List QueueId}
      (routine : state.routines t = .purgeDelete (job :: extra) queues) :
      PurgeMove limits state t .delete
        ((state.setRows (deleteJob state.rows job)).setRoutine t (.purgeDelete extra queues))
  | oldest {jobs bytes : ℤ} (routine : state.routines t = .purgeOldest jobs bytes) :
      PurgeMove limits state t .oldest
        (state.setRoutine t (.purgeNext (oldestWaiting state.nextJob state.rows 8) jobs bytes))
  | nextDone {jobs bytes : ℤ} (routine : state.routines t = .purgeNext [] jobs bytes) :
      PurgeMove limits state t .next (state.setRoutine t .idle)
  | next {job : QueueJob} {rest : List QueueJob} {jobs bytes : ℤ}
      (routine : state.routines t = .purgeNext (job :: rest) jobs bytes) :
      PurgeMove limits state t .next
        (state.setRoutine t
          (.dropLock job.id "queue size limit" (.purge rest (jobs - 1) (bytes - job.bytes))))
  | taken {j : JobId} {reason : String} {after : AfterDrop}
      (routine : state.routines t = .dropLock j reason after) (free : state.lock = none)
      (present : state.registered j = true) :
      PurgeMove limits state t .dropLock
        (((state.setRegistered j false).setDrop j (.mark reason)).setRoutine t (.dropping j after))
  | notTaken {j : JobId} {reason : String} {after : AfterDrop}
      (routine : state.routines t = .dropLock j reason after) (free : state.lock = none)
      (absent : state.registered j = false) :
      PurgeMove limits state t .dropLock (state.setRoutine t (afterDrop limits after))
  | dropMark {j : JobId} {after : AfterDrop} {reason : String}
      (routine : state.routines t = .dropping j after) (pc : state.drops j = .mark reason) :
      PurgeMove limits state t .dropMark
        ((state.setJob j (droppedJob state.clock reason (state.heap j))).setDrop j .copy)
  | dropCopy {j : JobId} {after : AfterDrop}
      (routine : state.routines t = .dropping j after) (pc : state.drops j = .copy) :
      PurgeMove limits state t .dropCopy (state.setDrop j (.save (state.heap j)))
  | dropSave {j : JobId} {after : AfterDrop} {copied : QueueJob} {ok : Bool}
      (routine : state.routines t = .dropping j after) (pc : state.drops j = .save copied) :
      PurgeMove limits state t (.dropSave ok) ((state.saveJob ok copied).setDrop j .complete)
  | dropComplete {j : JobId} {after : AfterDrop}
      (routine : state.routines t = .dropping j after) (pc : state.drops j = .complete) :
      PurgeMove limits state t .dropComplete
        (((state.complete j).setDrop j .finished).setRoutine t (afterDrop limits after))

/-- The branches of `stepRun`. -/
inductive RunMove (state : State) (j : JobId) : RunStep → State → Prop
  | start (pc : state.runs j = .start) :
      RunMove state j .start
        ((state.callForward j (state.heap j).assignedModel).setRun j (.inForward false))
  | write (pc : state.runs j = .inForward false) :
      RunMove state j .write ((state.send (state.writer j) .forward).setRun j (.inForward true))
  | failed {result : Forwarded} {message : String} (pc : state.runs j = .inForward false)
      (err : result.err = some message) :
      RunMove state j (.return result)
        ((state.setJob j (returnedJob state.clock (state.heap j) false result)).setRun j
          (.failing message))
  | returned {result : Forwarded} {wrote : Bool} (pc : state.runs j = .inForward wrote)
      (answered : result.err = none ∨ wrote = true) :
      RunMove state j (.return result)
        ((state.setJob j (returnedJob state.clock (state.heap j) wrote result)).setRun j .finishLock)
  | fail {message : String} (pc : state.runs j = .failing message) :
      RunMove state j .fail
        ((state.send (state.writer j) (.error 502 message)).setRun j .finishLock)
  | release (pc : state.runs j = .finishLock) (free : state.lock = none)
      (model : (state.heap j).assignedModel ≠ "")
      (held : state.inflight (state.heap j).assignedModel > 0) :
      RunMove state j .finishLock
        (((state.setInflight (state.heap j).assignedModel
          (state.inflight (state.heap j).assignedModel - 1)).setRegistered j false).setRun j
            .finishCopy)
  | noRelease (pc : state.runs j = .finishLock) (free : state.lock = none)
      (none : ¬((state.heap j).assignedModel ≠ "" ∧
        state.inflight (state.heap j).assignedModel > 0)) :
      RunMove state j .finishLock ((state.setRegistered j false).setRun j .finishCopy)
  | finishCopy (pc : state.runs j = .finishCopy) :
      RunMove state j .finishCopy (state.setRun j (.finishSave (state.heap j)))
  | finishSave {copied : QueueJob} {ok : Bool} (pc : state.runs j = .finishSave copied) :
      RunMove state j (.finishSave ok) ((state.saveJob ok copied).setRun j .finishComplete)
  | finishComplete (pc : state.runs j = .finishComplete) :
      RunMove state j .finishComplete
        (((state.complete j).setRun j .exited).setRoutine (.run j)
          (.dispatchEnter (state.heap j).queueId))

/-- The branches of `stepLoop`. -/
inductive LoopMove (state : State) : LoopStep → State → Prop
  | tick (pc : state.loopPc = .waiting) :
      LoopMove state .tick ((state.setLoop .purging).setRoutine .loop .purgeStats)
  | list (pc : state.loopPc = .purging) (idle : state.routines .loop = .idle) :
      LoopMove state .list (state.setLoop (.dispatching (state.tables.listQueues.map (·.id))))
  | done (pc : state.loopPc = .dispatching []) (idle : state.routines .loop = .idle) :
      LoopMove state .next (state.setLoop .waiting)
  | next {queueId : QueueId} {rest : List QueueId} (pc : state.loopPc = .dispatching (queueId :: rest))
      (idle : state.routines .loop = .idle) :
      LoopMove state .next
        ((state.setLoop (.dispatching rest)).setRoutine .loop (.dispatchEnter queueId))

theorem handle_moves {c : CallId} {action : HandleStep}
    (fires : stepHandle limits state c action = some next) :
    HandleMove limits state c action next := by
  cases action with
  | arrive request =>
      simp only [stepHandle] at fires
      split at fires
      next pc => cases fires; exact .arrive pc
      next => cases fires
  | enter =>
      simp only [stepHandle] at fires
      split at fires
      next pc =>
        split at fires
        next code message entry => cases fires; exact .refused pc entry
        next queue entry => cases fires; exact .entered pc entry
      next => cases fires
  | counts =>
      simp only [stepHandle] at fires
      split at fires
      next pc idle free =>
        split at fires
        next admission => cases fires; exact .toOverflow pc idle free admission
        next admission => cases fires; exact .full pc idle free admission
        next admission => cases fires; exact .accepted pc idle free admission
      next => cases fires
  | overflowSelect =>
      simp only [stepHandle] at fires
      split at fires
      next pc => cases fires; exact .overflowSelect pc
      next => cases fires
  | overflowInsert ok =>
      simp only [stepHandle] at fires
      split at fires
      next j pc =>
        cases ok with
        | true => cases fires; exact .overflowInserted pc
        | false => cases fires; exact .overflowNotInserted pc
      next => cases fires
  | overflowLookup =>
      simp only [stepHandle] at fires
      split at fires
      next j pc =>
        split at fires
        next queue looked => cases fires; exact .overflowNested pc looked
        next looked => cases fires; exact .overflowDirect pc looked
      next => cases fires
  | overflowForward wrote result =>
      simp only [stepHandle] at fires
      split at fires
      next j pc => cases fires; exact .overflowForward pc
      next => cases fires
  | overflowSave ok =>
      simp only [stepHandle] at fires
      split at fires
      next j pc => cases fires; exact .overflowSave pc
      next => cases fires
  | insertSelect =>
      simp only [stepHandle] at fires
      split at fires
      next pc => cases fires; exact .insertSelect pc
      next => cases fires
  | insertWrite ok =>
      simp only [stepHandle] at fires
      split at fires
      next j pc =>
        cases ok with
        | true => cases fires; exact .inserted pc
        | false => cases fires; exact .notInserted pc
      next => cases fires
  | register =>
      simp only [stepHandle] at fires
      split at fires
      next j pc free => cases fires; exact .register pc free
      next => cases fires
  | receive =>
      simp only [stepHandle] at fires
      split at fires
      next j pc idle =>
        split at fires
        next closed => cases fires; exact .receive (Or.inl pc) idle closed
        next => cases fires
      next j pc idle =>
        split at fires
        next closed => cases fires; exact .receive (Or.inr pc) idle closed
        next => cases fires
      next => cases fires
  | expire =>
      simp only [stepHandle] at fires
      split at fires
      next j pc idle => cases fires; exact .expire pc idle
      next => cases fires
  | checkExpired =>
      simp only [stepHandle] at fires
      split at fires
      next j pc free =>
        split at fires
        next waiting => cases fires; exact .stillWaiting pc free waiting
        next left => cases fires; exact .notWaiting pc free left
      next => cases fires
  | answerTimeout =>
      simp only [stepHandle] at fires
      split at fires
      next j pc idle => cases fires; exact .answerTimeout pc idle
      next => cases fires
  | unwind ok =>
      simp only [stepHandle] at fires
      split at fires
      next pc =>
        split at fires
        next outermost => cases fires; exact .returned pc outermost
        next j outer frames => cases fires; exact .unwound pc frames
      next => cases fires

theorem dispatch_moves {t : Thread} {action : DispatchStep}
    (fires : stepDispatch state t action = some next) : DispatchMove state t action next := by
  cases action with
  | enter =>
      simp only [stepDispatch] at fires
      split at fires
      next queueId routine =>
        split at fires
        next queue loaded => cases fires; exact .found routine loaded
        next absent => cases fires; exact .missing routine absent
      next => cases fires
  | top order =>
      simp only [stepDispatch] at fires
      split at fires
      next queue routine free =>
        split at fires
        next perm =>
          split at fires
          next none => cases fires; exact .noWaiter routine free perm none
          next head others first => cases fires; exact .head routine free perm first
        next => cases fires
      next => cases fires
  | pick route =>
      simp only [stepDispatch] at fires
      split at fires
      next queue head snapshot routine =>
        split at fires
        next none => cases fires; exact .noStep routine none
        next pick chosen => cases fires; exact .picked routine chosen
      next => cases fires
  | check =>
      simp only [stepDispatch] at fires
      split at fires
      next queue head pick routine free =>
        split at fires
        next stale => cases fires; exact .retry routine free stale
        next ready =>
          cases fires
          rw [not_or, not_not, not_le] at ready
          exact .checked routine free ready.1 ready.2
      next => cases fires
  | mark =>
      simp only [stepDispatch] at fires
      split at fires
      next queue head pick routine => cases fires; exact .mark routine
      next => cases fires
  | copy =>
      simp only [stepDispatch] at fires
      split at fires
      next queue head routine => cases fires; exact .copy routine
      next => cases fires
  | save ok =>
      simp only [stepDispatch] at fires
      split at fires
      next queue head copied routine => cases fires; exact .save routine
      next => cases fires

theorem purge_moves {t : Thread} {action : PurgeStep}
    (fires : stepPurge limits state t action = some next) : PurgeMove limits state t action next := by
  cases action with
  | stats =>
      simp only [stepPurge] at fires
      split at fires
      next routine =>
        split at fires
        next limit => cases fires; exact .above routine limit
        next within =>
          cases fires
          rw [not_or, not_le, not_le] at within
          exact .under routine within.1 within.2
      next => cases fires
  | aged =>
      simp only [stepPurge] at fires
      split at fires
      next routine => cases fires; exact .aged routine
      next => cases fires
  | queues =>
      simp only [stepPurge] at fires
      split at fires
      next routine => cases fires; exact .queues routine
      next => cases fires
  | surplus =>
      simp only [stepPurge] at fires
      split at fires
      next routine => cases fires; exact .surplusDone routine
      next queueId queues routine => cases fires; exact .surplus routine
      next => cases fires
  | delete =>
      simp only [stepPurge] at fires
      split at fires
      next queues routine => cases fires; exact .deleteDone routine
      next job extra queues routine => cases fires; exact .delete routine
      next => cases fires
  | oldest =>
      simp only [stepPurge] at fires
      split at fires
      next jobs bytes routine => cases fires; exact .oldest routine
      next => cases fires
  | next =>
      simp only [stepPurge] at fires
      split at fires
      next jobs bytes routine => cases fires; exact .nextDone routine
      next job rest jobs bytes routine => cases fires; exact .next routine
      next => cases fires
  | dropLock =>
      simp only [stepPurge] at fires
      split at fires
      next j reason after routine free =>
        split at fires
        next present => cases fires; exact .taken routine free present
        next absent => cases fires; exact .notTaken routine free (by simpa using absent)
      next => cases fires
  | dropMark =>
      simp only [stepPurge] at fires
      split at fires
      next j after routine =>
        split at fires
        next reason pc => cases fires; exact .dropMark routine pc
        next => cases fires
      next => cases fires
  | dropCopy =>
      simp only [stepPurge] at fires
      split at fires
      next j after routine =>
        split at fires
        next pc => cases fires; exact .dropCopy routine pc
        next => cases fires
      next => cases fires
  | dropSave ok =>
      simp only [stepPurge] at fires
      split at fires
      next j after routine =>
        split at fires
        next copied pc => cases fires; exact .dropSave routine pc
        next => cases fires
      next => cases fires
  | dropComplete =>
      simp only [stepPurge] at fires
      split at fires
      next j after routine =>
        split at fires
        next pc => cases fires; exact .dropComplete routine pc
        next => cases fires
      next => cases fires

theorem run_moves {j : JobId} {action : RunStep} (fires : stepRun state j action = some next) :
    RunMove state j action next := by
  cases action with
  | start =>
      simp only [stepRun] at fires
      split at fires
      next pc => cases fires; exact .start pc
      next => cases fires
  | write =>
      simp only [stepRun] at fires
      split at fires
      next pc => cases fires; exact .write pc
      next => cases fires
  | «return» result =>
      simp only [stepRun] at fires
      split at fires
      next wrote pc =>
        split at fires
        next message err => cases fires; exact .failed pc err
        next unfailed =>
          cases fires
          refine .returned pc (or_iff_not_imp_right.mpr ?_)
          intro unwritten
          cases err : result.err with
          | none => rfl
          | some message => exact (unfailed message err (by simpa using unwritten)).elim
      next => cases fires
  | fail =>
      simp only [stepRun] at fires
      split at fires
      next message pc => cases fires; exact .fail pc
      next => cases fires
  | finishLock =>
      simp only [stepRun] at fires
      split at fires
      next pc free =>
        cases fires
        split
        next held => exact .release pc free held.1 held.2
        next none => exact .noRelease pc free none
      next => cases fires
  | finishCopy =>
      simp only [stepRun] at fires
      split at fires
      next pc => cases fires; exact .finishCopy pc
      next => cases fires
  | finishSave ok =>
      simp only [stepRun] at fires
      split at fires
      next copied pc => cases fires; exact .finishSave pc
      next => cases fires
  | finishComplete =>
      simp only [stepRun] at fires
      split at fires
      next pc => cases fires; exact .finishComplete pc
      next => cases fires

theorem loop_moves {action : LoopStep} (fires : stepLoop state action = some next) :
    LoopMove state action next := by
  cases action with
  | tick =>
      simp only [stepLoop] at fires
      split at fires
      next pc => cases fires; exact .tick pc
      next => cases fires
  | list =>
      simp only [stepLoop] at fires
      split at fires
      next pc idle => cases fires; exact .list pc idle
      next => cases fires
  | next =>
      simp only [stepLoop] at fires
      split at fires
      next pc idle => cases fires; exact .done pc idle
      next queueId rest pc idle => cases fires; exact .next pc idle
      next => cases fires

end MikroLLM.Queue
