import MikroLLM.Queue.Presence
import MikroLLM.Queue.Rows

/-!
# The bounds of admission

`handle` tests the waiters of one queue before it inserts the row of a job, and
registers the waiter later still. No test looks at the rows of all queues, and
`purgeIfNeeded` only drops jobs that wait. The bounds hold as long as the tests
see it when there is no room: a full queue has an overflow alias and no other
arrival on its way, and all rows of a full table are waiters of one queue, which
`MaxJobs` is tested for.
-/

namespace MikroLLM.Queue

open Domain Store Go Library

/-- Accepted, and the row is not inserted. -/
def CallPc.inserting : CallPc → Bool
  | .insertSelect | .insertWrite _ => true
  | _ => false

/-- Accepted, and the waiter is not registered. -/
def CallPc.registering : CallPc → Bool
  | .insertSelect | .insertWrite _ | .register _ => true
  | _ => false

/-- A call in one of these places, for a queue of this kind. -/
def Call.accepted (places : CallPc → Bool) (queues : QueueId → Bool) (call : Call) : Bool :=
  places call.pc && queues call.queue.id

namespace State

/-- The first so many calls that will insert a row. -/
def inserting (state : State) (callers : ℕ) : ℕ :=
  countOf (Call.accepted CallPc.inserting fun _ => true) state.calls callers

/-- The first so many calls that will register a waiter of a queue. -/
def registering (state : State) (callers : ℕ) (queueId : QueueId) : ℕ :=
  countOf (Call.accepted CallPc.registering (· = queueId)) state.calls callers

end State

namespace Call

/-- The queue of the frame has an overflow alias, and the call did not come under this name. -/
def canOverflow (frame : Call) : Bool :=
  frame.queue.overflowAlias ≠ "" && frame.queue.overflowAlias ≠ frame.name

end Call

namespace State

/-- With the arrivals on their way, as many jobs wait in the queue as its `overflow_after`. -/
def queueFull (state : State) (callers : ℕ) (queue : Queue) : Bool :=
  0 < queue.overflowAfter &&
    queue.overflowAfter ≤ state.count queue.id .waiting + state.registering callers queue.id

/-- With the arrivals on their way, as many rows wait or run as `MaxJobs`. -/
def tableFull (state : State) (limits : Limits) (callers : ℕ) : Bool :=
  limits.maxJobs ≤ (waitingStats state.nextJob state.rows).1 + state.inserting callers

/-- Each row that waits or runs is of a waiter that `counts` counts for the queue. -/
def countsAll (state : State) (queueId : QueueId) : Bool :=
  (List.range state.nextJob).all fun job =>
    !rowActive state.rows job ||
      (state.registered job && (state.heap job).queueId = queueId &&
        (state.heap job).status.isActive)

/-- The test against `overflow_after` sees that the queue is full, and has another place for the
arrival: there is an overflow alias, and no other arrival of the queue is between its counts and its
registration. -/
def overflowTestSees (state : State) (callers : ℕ) (frame : Call) : Bool :=
  frame.canOverflow && state.registering callers frame.queue.id = 0

/-- The test against `MaxJobs` sees that the table is full: it is made for the queue, no other arrival
is between its counts and the insertion of its row, and all rows are waiters of the queue. -/
def jobsTestSees (state : State) (callers : ℕ) (frame : Call) : Bool :=
  frame.queue.overflowAfter = 0 && state.inserting callers = 0 && state.countsAll frame.queue.id

end State

/-- The steps that keep the bounds, for calls with identifiers below `callers`: an arrival at a full
queue or a full table is one that the tests of `handle` see. -/
def boundsKept (limits : Limits) (callers : ℕ) (state : State) : Action → Bool
  | .editQueues _ => false
  | .handle c (.arrive _) => c < callers
  | .handle c .counts =>
      if state.queueFull callers (state.calls c).queue then
        state.overflowTestSees callers (state.calls c)
      else if state.tableFull limits callers then state.jobsTestSees callers (state.calls c)
      else true
  | action => rowsApart state action

/-- What is to become of an arrival at a full queue: it goes to the overflow alias or, when there is
none, is refused with 503. -/
def TurnedAway (before after : Call) : Prop :=
  if before.canOverflow = true then after.pc = .overflowSelect
  else after.pc = .unwind ∧ ∃ message, after.sent = before.sent ++ [.error 503 message]

theorem rowsApart_of_boundsKept {limits : Limits} {callers : ℕ} {state : State} {action : Action}
    (kept : boundsKept limits callers state action = true) : rowsApart state action = true := by
  cases action with
  | handle c action => rfl
  | _ => first | rfl | exact kept

section Steps

variable {limits : Limits} {state next : State} {c : CallId}

/-- A finished job is written: no row becomes active. -/
theorem rowActive_saveJob {ok : Bool} {job : QueueJob} {k : JobId}
    (finished : job.status.isActive = false)
    (active : rowActive (state.saveJob ok job).rows k = true) : rowActive state.rows k = true := by
  cases ok with
  | false => exact active
  | true =>
      rcases eq_or_ne k job.id with rfl | other
      · cases stored : rowStatus state.rows job.id <;>
          simp [rowActive, rowStatus_updateJob, stored, finished] at active
      · simpa [rowActive, rowStatus_updateJob, other] using active

/-- A row that waits or runs did so before, or is being inserted. -/
theorem rowActive_step {action : Action} {k : JobId} (consistent : Consistent state)
    (stored : Stored state) (apart : rowsApart state action = true)
    (fires : step limits state action = some next) (active : rowActive next.rows k = true) :
    rowActive state.rows k = true ∨
      ∃ c, action = .handle c (.insertWrite true) ∧ (state.calls c).pc = .insertWrite k := by
  have owned := consistent.owned
  cases action with
  | advance seconds | editQueues tables => cases fires; exact Or.inl active
  | handle c action =>
      cases handle_moves fires with
      | @overflowInserted j pc =>
          have inHand : (state.calls c).pc.overflows = some j := by rw [pc]; rfl
          have finished := (stored.calls c).overflow j (Or.inr inHand)
          left
          rcases eq_or_ne k (state.heap j).id with rfl | other
          · simp [rowActive, rowStatus_insertJob, finished] at active
          · simpa [rowActive, rowStatus_insertJob, other] using active
      | @overflowSave j ok pc =>
          have inHand : (state.calls c).pc.overflows = some j := by rw [pc]; rfl
          exact Or.inl (rowActive_saveJob ((stored.calls c).overflow j (Or.inr inHand)) active)
      | @unwound ok j outer pc frames =>
          have finished : (unwoundJob state.clock (state.heap j)).status.isActive = false := rfl
          exact Or.inl (rowActive_saveJob finished active)
      | @inserted j pc =>
          have joins : (state.calls c).pc.joins = some j := by rw [pc]; rfl
          have same := owned.ids j ((owned.calls c).joining j joins).1
          rcases eq_or_ne k j with rfl | other
          · exact Or.inr ⟨c, rfl, pc⟩
          · exact Or.inl (by simpa [rowActive, rowStatus_insertJob, same, other] using active)
      | _ => exact Or.inl active
  | dispatch t action =>
      left
      cases dispatch_moves fires with
      | @save queue head copied ok routine =>
          have facts := consistent.slots.dispatchers t
          have here := stored.routines t
          rw [routine] at facts here
          have unsaved : (state.drops head).saved = false := by
            simpa [rowsApart, routine] using apart
          have waiting := (stored.jobs head).dispatched t facts.2 unsaved
          rcases eq_or_ne k head with rfl | other
          · simp [rowActive, waiting, JobStatus.isActive]
          · have otherRow : k ≠ copied.id := by rw [here.1]; exact other
            cases ok with
            | true => simpa [rowActive, rowStatus_updateJob, otherRow] using active
            | false => exact active
      | _ => exact active
  | purge t action =>
      left
      cases purge_moves fires with
      | aged =>
          by_contra stale
          rw [State.setRoutine_rows, State.setRows_rows,
            rowActive_deleteAged (by simpa using stale)] at active
          cases active
      | @delete job extra queues routine =>
          rcases eq_or_ne k job with rfl | other
          · simp [rowActive, rowStatus_deleteJob] at active
          · simpa [rowActive, rowStatus_deleteJob, other] using active
      | @dropSave j after copied ok routine pc =>
          exact rowActive_saveJob ((stored.jobs j).dropCopy copied pc).2 active
      | _ => exact active
  | run j action =>
      left
      cases run_moves fires with
      | @finishSave copied ok pc =>
          exact rowActive_saveJob ((stored.jobs j).runCopy copied pc).2 active
      | _ => exact active
  | loop action => cases loop_moves fires <;> exact Or.inl active

/-- Only an accepted arrival comes to the places after the admission tests. -/
theorem accepted_step {action : Action} {places : CallPc → Bool} {queues : QueueId → Bool}
    {callers : ℕ} (only : ∀ pc, pc.registering = false → places pc = false)
    (order : ∀ j, (places (.insertWrite j) = true → places .insertSelect = true) ∧
      (places (.register j) = true → places (.insertWrite j) = true))
    (notAccepted : ∀ c, action = .handle c .counts →
      admission limits state (state.calls c) ≠ .accepted)
    (fires : step limits state action = some next) :
    countOf (Call.accepted places queues) next.calls callers ≤
      countOf (Call.accepted places queues) state.calls callers := by
  have outside : ∀ {call : Call} {c : CallId}, call.pc.registering = false →
      Call.accepted places queues call = true →
        Call.accepted places queues (state.calls c) = true := by
    intro call c left holds
    simp [Call.accepted, only _ left] at holds
  cases action with
  | advance seconds | editQueues tables => cases fires; exact le_rfl
  | handle c action =>
      cases handle_moves fires with
      | accepted pc idle free admission => exact (notAccepted c rfl admission).elim
      | @insertSelect pc =>
          apply countOf_update_le
          simp only [Call.accepted, Bool.and_eq_true]
          exact And.imp_left fun here => pc ▸ (order state.nextJob).1 here
      | @inserted j pc =>
          apply countOf_update_le
          simp only [Call.accepted, Bool.and_eq_true]
          exact And.imp_left fun here => pc ▸ (order j).2 here
      | unwound => exact countOf_update_le fun holds => holds
      | _ => exact countOf_update_le (outside (by rfl))
  | dispatch t action => cases dispatch_moves fires <;> exact le_rfl
  | purge t action => cases purge_moves fires <;> exact le_rfl
  | run j action =>
      cases run_moves fires with
      | write | fail => exact countOf_update_le fun holds => holds
      | _ => exact le_rfl
  | loop action => cases loop_moves fires <;> exact le_rfl

/-- The rows that wait or run, as the purge counts them. -/
theorem waitingStats_fst {bound : JobId} {rows : JobTable} :
    (waitingStats bound rows).1 = Nat.count (fun id => rowActive rows id = true) bound := by
  simp only [waitingStats, scan]
  induction bound with
  | zero => rfl
  | succ bound ih =>
      rw [List.range_succ, List.filterMap_append, List.filter_append, List.length_append, ih,
        Nat.count_succ]
      congr 1
      cases found : rows bound with
      | none => simp [found, rowActive, rowStatus]
      | some row =>
          cases active : row.status.isActive <;> simp [found, active, rowActive, rowStatus]

/-- A step that inserts no row to wait for has no more rows that wait or run. -/
theorem activeRows_step {action : Action} (consistent : Consistent state) (stored : Stored state)
    (apart : rowsApart state action = true) (fires : step limits state action = some next) :
    (waitingStats next.nextJob next.rows).1 ≤ (waitingStats state.nextJob state.rows).1 ∨
      ∃ c, action = .handle c (.insertWrite true) ∧ (waitingStats next.nextJob next.rows).1 ≤
        (waitingStats state.nextJob state.rows).1 + 1 := by
  have below : ∀ k, rowActive state.rows k = true → k < state.nextJob := by
    intro k active
    cases found : state.rows k with
    | none => simp [rowActive, rowStatus, found] at active
    | some row => exact (stored.ids k row found).2
  rw [waitingStats_fst, waitingStats_fst]
  by_cases inserts : ∃ c k, action = .handle c (.insertWrite true) ∧
      (state.calls c).pc = .insertWrite k
  · rcases inserts with ⟨c, j, rfl, pc⟩
    refine Or.inr ⟨c, rfl, ?_⟩
    apply count_le_succ_of_subset j
    intro k _ active
    rcases rowActive_step consistent stored apart fires active with before | ⟨c', same, fresh⟩
    · exact Or.inl ⟨below k before, before⟩
    · cases same
      rw [pc] at fresh
      cases fresh
      exact Or.inr rfl
  · left
    apply count_le_of_subset
    intro k _ active
    rcases rowActive_step consistent stored apart fires active with before | ⟨c, same, fresh⟩
    · exact ⟨below k before, before⟩
    · exact (inserts ⟨c, k, same, fresh⟩).elim

/-- A step that registers no waiter of a queue has no more waiters of it that wait. -/
theorem waitingCount_step {action : Action} (consistent : Consistent state)
    (fires : step limits state action = some next) (queueId : QueueId) :
    next.count queueId .waiting ≤ state.count queueId .waiting ∨
      ∃ c, action = .handle c .register ∧ (state.calls c).queue.id = queueId ∧
        next.count queueId .waiting ≤ state.count queueId .waiting + 1 := by
  have owned := consistent.owned
  have below : ∀ k, state.registered k = true → k < state.nextJob := fun k present =>
    ((owned.calls _).waiting k (owned.jobs.registered k present)).1
  by_cases registers : ∃ c k, action = .handle c .register ∧ (state.calls c).pc = .register k ∧
      (state.calls c).queue.id = queueId
  · rcases registers with ⟨c, j, rfl, pc, queue⟩
    refine Or.inr ⟨c, rfl, queue, ?_⟩
    apply count_le_succ_of_subset j
    rintro k _ ⟨present, ofQueue, waits⟩
    rcases waiter_step consistent fires present waits with ⟨before, same⟩ | ⟨c', same, here, _⟩
    · exact Or.inl ⟨below k before, before, same ▸ ofQueue, same ▸ waits⟩
    · cases same
      rw [pc] at here
      cases here
      exact Or.inr rfl
  · left
    apply count_le_of_subset
    rintro k _ ⟨present, ofQueue, waits⟩
    rcases waiter_step consistent fires present waits with ⟨before, same⟩ | ⟨c, same, pc, heap⟩
    · exact ⟨below k before, before, same ▸ ofQueue, same ▸ waits⟩
    · have joins : (state.calls c).pc.joins = some k := by rw [pc]; rfl
      refine (registers ⟨c, k, same, pc, ?_⟩).elim
      rw [← ((owned.calls c).joining k joins).2.2.2.2.2, ← heap]
      exact ofQueue

end Steps

/-- The bounds, with the arrivals that are accepted already. -/
structure Bounded (limits : Limits) (tables : QueueTables) (callers : ℕ) (state : State) :
    Prop where
  stored : Stored state
  fixed : state.tables = tables
  arrived : ∀ c, (state.calls c).pc ≠ .idle → c < callers
  frames : ∀ c, (state.calls c).pc = .counts →
    tables.getQueue (state.calls c).queue.id = some (state.calls c).queue
  rows : (waitingStats state.nextJob state.rows).1 + state.inserting callers ≤ limits.maxJobs
  waiting : ∀ id queue, tables.getQueue id = some queue → 0 < queue.overflowAfter →
    (state.count id .waiting + state.registering callers id : ℤ) ≤ queue.overflowAfter

section Bounded

variable {limits : Limits} {tables : QueueTables} {callers : ℕ} {state next : State}

/-- The frame of a call works on a queue of the store. -/
theorem getQueue_of_enterFrame {bytes depth : ℕ} {name : String} {queue : Queue}
    (entry : enterFrame limits tables bytes name depth = .entered queue) :
    tables.getQueue queue.id = some queue := by
  simp only [enterFrame] at entry
  split at entry
  · cases entry
  · split at entry
    · cases entry
    · rename_i byAlias found
      split at entry
      · cases entry
      · split at entry
        · cases entry
        · cases entry
          rcases QueueTables.getQueueByAlias_eq_some.mp found with ⟨row, named, rfl⟩
          exact QueueTables.getQueue_of_mem named.1

theorem Bounded.frames_step {action : Action} (inv : Bounded limits tables callers state)
    (fires : step limits state action = some next) :
    ∀ c, (next.calls c).pc = .counts →
      tables.getQueue (next.calls c).queue.id = some (next.calls c).queue := by
  have changed : ∀ (c : CallId) (call : Call),
      (call.pc = .counts → tables.getQueue call.queue.id = some call.queue) → ∀ other,
      (Function.update state.calls c call other).pc = .counts →
        tables.getQueue (Function.update state.calls c call other).queue.id =
          some (Function.update state.calls c call other).queue := by
    intro c call own other
    rcases eq_or_ne other c with rfl | different
    · simpa using own
    · simpa [different] using inv.frames other
  cases action with
  | advance seconds | editQueues tables => cases fires; exact inv.frames
  | handle c action =>
      cases handle_moves fires with
      | entered pc entry =>
          rw [inv.fixed] at entry
          exact changed c _ fun _ => getQueue_of_enterFrame entry
      | unwound pc => exact changed c _ (by simp [pc])
      | _ => exact changed c _ (by simp)
  | dispatch t action => cases dispatch_moves fires <;> exact inv.frames
  | purge t action => cases purge_moves fires <;> exact inv.frames
  | run j action =>
      cases run_moves fires with
      | write | fail => exact changed _ _ (inv.frames _)
      | _ => exact inv.frames
  | loop action => cases loop_moves fires <;> exact inv.frames

/-- An arrival that is accepted. -/
def Accepts (limits : Limits) (state : State) (action : Action) : Prop :=
  ∃ c, action = .handle c .counts ∧ admission limits state (state.calls c) = .accepted

theorem accepted_moves {c : CallId} (accepts : admission limits state (state.calls c) = .accepted)
    (fires : step limits state (.handle c .counts) = some next) :
    (state.calls c).pc = .counts ∧ next = state.setPc c .insertSelect := by
  have move : HandleMove limits state c .counts next := handle_moves fires
  cases move with
  | toOverflow pc idle free overflows =>
      rw [accepts] at overflows
      cases overflows
  | full pc idle free full =>
      rw [accepts] at full
      cases full
  | accepted pc => exact ⟨pc, rfl⟩

theorem inserting_step {action : Action} (notAccepted : ¬Accepts limits state action)
    (fires : step limits state action = some next) :
    next.inserting callers ≤ state.inserting callers := by
  refine accepted_step ?_ ?_ ?_ fires
  · intro pc outside
    cases pc <;> simp_all [CallPc.inserting, CallPc.registering]
  · intro j
    simp [CallPc.inserting]
  · intro c isCounts accepts
    exact notAccepted ⟨c, isCounts, accepts⟩

theorem registering_step {action : Action} {queueId : QueueId}
    (notAccepted : ¬Accepts limits state action)
    (fires : step limits state action = some next) :
    next.registering callers queueId ≤ state.registering callers queueId := by
  refine accepted_step (fun pc outside => outside) ?_ ?_ fires
  · intro j
    simp [CallPc.registering]
  · intro c isCounts accepts
    exact notAccepted ⟨c, isCounts, accepts⟩

/-- The count sees all rows of the table. -/
theorem activeRows_le_count {queueId : QueueId} (all : state.countsAll queueId = true) :
    (waitingStats state.nextJob state.rows).1 ≤
      state.count queueId .waiting + state.count queueId .running := by
  rw [waitingStats_fst]
  apply count_le_add
  intro job below active
  have counted := List.all_eq_true.mp all job (List.mem_range.mpr below)
  simp only [active, Bool.not_true, Bool.false_or, Bool.and_eq_true, decide_eq_true_eq] at counted
  rcases counted with ⟨⟨present, ofQueue⟩, isActive⟩
  cases status : (state.heap job).status with
  | waiting => exact Or.inl ⟨present, ofQueue, rfl⟩
  | running => exact Or.inr ⟨present, ofQueue, rfl⟩
  | _ => simp [status, JobStatus.isActive] at isActive

/-- An arrival that the test against `overflow_after` sees is sent to the overflow alias. -/
theorem overflow_of_sees {c : CallId} (full : state.queueFull callers (state.calls c).queue = true)
    (sees : state.overflowTestSees callers (state.calls c) = true) :
    admission limits state (state.calls c) = .overflow := by
  simp only [State.queueFull, Bool.and_eq_true, decide_eq_true_eq] at full
  simp only [State.overflowTestSees, Call.canOverflow, Bool.and_eq_true, decide_eq_true_eq] at sees
  rcases sees with ⟨⟨named, other⟩, alone⟩
  rw [admission, if_pos ⟨full.1, by omega, named, other⟩]

/-- An arrival that the test against `MaxJobs` sees is refused. -/
theorem full_of_sees {c : CallId} (full : state.tableFull limits callers = true)
    (sees : state.jobsTestSees callers (state.calls c) = true) :
    admission limits state (state.calls c) = .full := by
  simp only [State.tableFull, decide_eq_true_eq] at full
  simp only [State.jobsTestSees, Bool.and_eq_true, decide_eq_true_eq] at sees
  rcases sees with ⟨⟨tested, alone⟩, all⟩
  have rows := activeRows_le_count all
  rw [admission, if_neg (by omega), if_pos ⟨tested, by omega⟩]

/-- An arrival that is accepted finds room in the table and in its queue. -/
theorem room_of_accepted {c : CallId}
    (kept : boundsKept limits callers state (.handle c .counts) = true)
    (accepts : admission limits state (state.calls c) = .accepted) :
    (waitingStats state.nextJob state.rows).1 + state.inserting callers < limits.maxJobs ∧
      (0 < (state.calls c).queue.overflowAfter →
        (state.count (state.calls c).queue.id .waiting +
          state.registering callers (state.calls c).queue.id : ℤ) <
            (state.calls c).queue.overflowAfter) := by
  simp only [boundsKept] at kept
  split at kept
  · rename_i full
    rw [overflow_of_sees full kept] at accepts
    cases accepts
  · rename_i notFull
    have room : ¬state.tableFull limits callers = true := by
      intro full
      rw [if_pos full] at kept
      rw [full_of_sees full kept] at accepts
      cases accepts
    simp only [State.tableFull, decide_eq_true_eq] at room
    simp only [State.queueFull, Bool.and_eq_true, decide_eq_true_eq] at notFull
    exact ⟨by omega, fun bounded => by omega⟩

theorem Bounded.rows_step {action : Action} (inv : Bounded limits tables callers state)
    (consistent : Consistent state) (kept : boundsKept limits callers state action = true)
    (fires : step limits state action = some next) :
    (waitingStats next.nextJob next.rows).1 + next.inserting callers ≤ limits.maxJobs := by
  have bound := inv.rows
  by_cases accepts : Accepts limits state action
  · rcases accepts with ⟨c, rfl, accepts⟩
    rcases accepted_moves accepts fires with ⟨_, rfl⟩
    have room := (room_of_accepted kept accepts).1
    have more : (state.setPc c .insertSelect).inserting callers ≤ state.inserting callers + 1 :=
      countOf_update_le_succ
    show (waitingStats state.nextJob state.rows).1 + _ ≤ _
    omega
  · have fewer : next.inserting callers ≤ state.inserting callers := inserting_step accepts fires
    rcases activeRows_step consistent inv.stored (rowsApart_of_boundsKept kept) fires with
      same | ⟨c, rfl, grown⟩
    · omega
    · have move : HandleMove limits state c (.insertWrite true) next := handle_moves fires
      have left : state.inserting callers = next.inserting callers + 1 := by
        cases move with
        | inserted pc =>
            apply countOf_update_leave (inv.arrived c (by simp [pc]))
            · simp [Call.accepted, pc, CallPc.inserting]
            · simp [Call.accepted, CallPc.inserting]
      omega

theorem Bounded.waiting_step {action : Action} (inv : Bounded limits tables callers state)
    (consistent : Consistent state) (kept : boundsKept limits callers state action = true)
    (fires : step limits state action = some next) {id : QueueId} {queue : Queue}
    (found : tables.getQueue id = some queue) (bounded : 0 < queue.overflowAfter) :
    (next.count id .waiting + next.registering callers id : ℤ) ≤ queue.overflowAfter := by
  have bound := inv.waiting id queue found bounded
  by_cases accepts : Accepts limits state action
  · rcases accepts with ⟨c, rfl, accepts⟩
    rcases accepted_moves accepts fires with ⟨pc, rfl⟩
    have same : (state.setPc c .insertSelect).count id .waiting = state.count id .waiting := rfl
    rw [same]
    rcases eq_or_ne (state.calls c).queue.id id with rfl | other
    · have frame := inv.frames c pc
      rw [found, Option.some.injEq] at frame
      subst frame
      have room := (room_of_accepted kept accepts).2 bounded
      have more : (state.setPc c .insertSelect).registering callers (state.calls c).queue.id ≤
          state.registering callers (state.calls c).queue.id + 1 := countOf_update_le_succ
      omega
    · have fewer : (state.setPc c .insertSelect).registering callers id ≤
          state.registering callers id := by
        apply countOf_update_le
        simp [Call.accepted, other]
      omega
  · have fewer : next.registering callers id ≤ state.registering callers id :=
      registering_step accepts fires
    rcases waitingCount_step consistent fires id with same | ⟨c, rfl, ofQueue, grown⟩
    · omega
    · have move : HandleMove limits state c .register next := handle_moves fires
      have left : state.registering callers id = next.registering callers id + 1 := by
        cases move with
        | register pc =>
            apply countOf_update_leave (inv.arrived c (by simp [pc]))
            · simp [Call.accepted, pc, CallPc.registering, ofQueue]
            · simp [Call.accepted, CallPc.registering]
      omega

theorem Bounded.step {action : Action} (inv : Bounded limits tables callers state)
    (consistent : Consistent state) (kept : boundsKept limits callers state action = true)
    (fires : Queue.step limits state action = some next) :
    Bounded limits tables callers next := by
  have fixed : next.tables = tables := by
    cases action with
    | advance seconds => cases fires; exact inv.fixed
    | editQueues tables => cases kept
    | handle c action => cases handle_moves fires <;> exact inv.fixed
    | dispatch t action => cases dispatch_moves fires <;> exact inv.fixed
    | purge t action => cases purge_moves fires <;> exact inv.fixed
    | run k action => cases run_moves fires <;> exact inv.fixed
    | loop action => cases loop_moves fires <;> exact inv.fixed
  have arrives : ∀ c request, action = .handle c (.arrive request) → c < callers := by
    rintro c request rfl
    simpa [boundsKept] using kept
  exact ⟨inv.stored.step consistent (rowsApart_of_boundsKept kept) fires, fixed,
    arrived_step consistent inv.arrived arrives fires, inv.frames_step fires,
    inv.rows_step consistent kept fires,
    fun id queue found bounded => inv.waiting_step consistent kept fires found bounded⟩

theorem bounded_start {history : List QueueJob} {clock : ℕ} :
    Bounded limits tables callers (start tables history clock) := by
  have none : ∀ places queues, places CallPc.idle = false →
      countOf (Call.accepted places queues) (start tables history clock).calls callers = 0 := by
    intro places queues idle
    simp [countOf, start, Call.accepted, Call.idle, idle, Nat.count_false]
  have stored : Stored (start tables history clock) := stored_start
  refine ⟨stored, rfl, by simp [start, Call.idle], by simp [start, Call.idle], ?_, ?_⟩
  · have stale := waitingStats_eq_zero stored.ids fun id =>
      stored.outside id (by simp [Entered, start, Call.idle]) (by simp [start, Call.idle])
    rw [stale, State.inserting, none _ _ rfl]
    exact Nat.zero_le _
  · intro id queue _ bounded
    have quiet : (start tables history clock).count id .waiting = 0 := by
      simp [State.count, start, Nat.count_false]
    rw [quiet, State.registering, none _ _ rfl]
    simpa using bounded.le

end Bounded

section Runs

variable {limits : Limits} {tables : QueueTables} {callers : ℕ} {history : List QueueJob}
  {clock : ℕ} {trace : List Action} {state : State}

/-- In a state with the bounds, an arrival at a full queue is turned away exactly when the test against
`overflow_after` sees it; none is refused with 503. -/
theorem Bounded.turnedAway_iff {c : CallId} {next : State}
    (inv : Bounded limits tables callers state)
    (fires : Queue.step limits state (.handle c .counts) = some next)
    (full : state.queueFull callers (state.calls c).queue = true) :
    TurnedAway (state.calls c) (next.calls c) ↔
      state.overflowTestSees callers (state.calls c) = true := by
  have isFull := full
  simp only [State.queueFull, Bool.and_eq_true, decide_eq_true_eq] at full
  rcases full with ⟨bounded, noPlace⟩
  have move : HandleMove limits state c .counts next := handle_moves fires
  cases move with
  | toOverflow pc idle free overflows =>
      have bound := inv.waiting _ _ (inv.frames c pc) bounded
      simp only [admission] at overflows
      split at overflows
      · rename_i test
        have usable : (state.calls c).canOverflow = true := by
          simpa [Call.canOverflow] using test.2.2
        have alone : state.registering callers (state.calls c).queue.id = 0 := by omega
        simp [TurnedAway, usable, State.overflowTestSees, alone]
      · split at overflows <;> cases overflows
  | full pc idle free refused =>
      simp only [admission] at refused
      split at refused
      · cases refused
      · split at refused
        · rename_i test
          omega
        · cases refused
  | accepted pc idle free accepts =>
      constructor
      · intro turned
        by_cases usable : (state.calls c).canOverflow = true <;> simp [TurnedAway, usable] at turned
      · intro sees
        rw [overflow_of_sees isFull sees] at accepts
        cases accepts

/-- The bounds. In every state that a run with `boundsKept` reaches, at most `MaxJobs` rows wait or
run, a queue with `overflow_after` has at most that many waiting jobs, and an arrival at a full queue
is turned away exactly when the test against `overflow_after` sees it, as `boundsKept` asks. -/
theorem queue_bounds (run : Run (step limits) (fun state action => boundsKept limits callers state
      action) (start tables history clock) trace state) :
    (waitingStats state.nextJob state.rows).1 ≤ limits.maxJobs ∧
    (∀ id queue, tables.getQueue id = some queue → 0 < queue.overflowAfter →
      (state.count id .waiting : ℤ) ≤ queue.overflowAfter) ∧
    (∀ c next, step limits state (.handle c .counts) = some next →
      state.queueFull callers (state.calls c).queue = true →
      (TurnedAway (state.calls c) (next.calls c) ↔
        state.overflowTestSees callers (state.calls c) = true)) := by
  have inv : Bounded limits tables callers state := by
    refine invariant_of_run run bounded_start ?_
    intro state next action consistent inv kept fires
    exact inv.step consistent kept fires
  refine ⟨?_, ?_, fun c next fires full => inv.turnedAway_iff fires full⟩
  · have bound := inv.rows
    omega
  · intro id queue found bounded
    have bound := inv.waiting id queue found bounded
    omega

/-- A store with one queue, with this `overflow_after` and this overflow alias. -/
def boundedTables (overflowAfter : ℤ) (overflowAlias : String) : QueueTables where
  queues := [⟨1, "itres", "coder", true, overflowAfter, overflowAlias, 0⟩]
  steps := [(1, ⟨0, "local", 1, local_ne⟩)]
  aliases := []
  queues_id_nodup := List.nodup_singleton _
  queues_alias_nodup := List.nodup_singleton _
  aliases_nodup := List.nodup_nil
  aliases_owner := by simp

/-- A call comes to the admission tests while the job of another one waits. -/
def arrivesAtFull : List Action :=
  joins 0 ⟨"coder", "", "/v1/chat/completions", 10⟩ 0 ++
    [.dispatch (.call 0) (.top [0]), .dispatch (.call 0) (.pick fun _ => none),
      .handle 1 (.arrive ⟨"coder", "", "/v1/chat/completions", 10⟩), .handle 1 .enter] ++
    (quietPurge 1).map (.purge (.call 1))

/-- The queue is full, and the second call goes to the overflow alias. -/
theorem queue_bounds_overflow :
    ∃ state next, Run (step defaultLimits)
        (fun state action => boundsKept defaultLimits 2 state action)
        (start (boundedTables 1 "gpt") [] 0) arrivesAtFull state ∧
      state.count 1 .waiting = 1 ∧
      (waitingStats state.nextJob state.rows).1 ≤ defaultLimits.maxJobs ∧
      (∀ id queue, (boundedTables 1 "gpt").getQueue id = some queue → 0 < queue.overflowAfter →
        (state.count id .waiting : ℤ) ≤ queue.overflowAfter) ∧
      step defaultLimits state (.handle 1 .counts) = some next ∧
      boundsKept defaultLimits 2 state (.handle 1 .counts) = true ∧
      TurnedAway (state.calls 1) (next.calls 1) := by
  have ran : ((execWhen (step defaultLimits) (boundsKept defaultLimits 2)
      (start (boundedTables 1 "gpt") [] 0) arrivesAtFull).bind fun state =>
        (step defaultLimits state (.handle 1 .counts)).map fun _ =>
          (state.count 1 .waiting, state.queueFull 2 (state.calls 1).queue,
            state.overflowTestSees 2 (state.calls 1))) = some (1, true, true) := by
    decide
  rcases Option.bind_eq_some_iff.mp ran with ⟨state, executed, ran⟩
  rcases Option.map_eq_some_iff.mp ran with ⟨next, fires, facts⟩
  simp only [Prod.mk.injEq] at facts
  rcases facts with ⟨waiting, full, sees⟩
  have run := run_of_execWhen executed
  have bounds := queue_bounds run
  refine ⟨state, next, run, waiting, bounds.1, bounds.2.1, fires, ?_,
    (bounds.2.2 1 next fires full).mpr sees⟩
  simp [boundsKept, full, sees]

/-- A second call comes to the admission tests while the job of the first one runs, with as many jobs
as `MaxJobs`. -/
def arrivesAtLimit : List Action :=
  joins 0 ⟨"coder", "", "/v1/chat/completions", 10⟩ 0 ++ dispatches (.call 0) [0] ++
    [.handle 1 (.arrive ⟨"coder", "", "/v1/chat/completions", 10⟩), .handle 1 .enter,
      .purge (.call 1) .stats, .purge (.call 1) .oldest, .purge (.call 1) .next]

set_option maxRecDepth 8000 in
/-- Without `overflow_after` the test against `MaxJobs` sees the job that runs. -/
example : (execWhen (step tightLimits) (boundsKept tightLimits 2)
    (start (boundedTables 0 "") [] 0) (arrivesAtLimit ++ [.handle 1 .counts])).map (fun state =>
      ((waitingStats state.nextJob state.rows).1, (state.calls 1).sent)) =
        some (1, [.error 503 "queue full"]) := by
  decide

/-- The second call is accepted. -/
def insertsAtLimit : List Action :=
  arrivesAtLimit ++ [.handle 1 .counts, .handle 1 .insertSelect, .handle 1 (.insertWrite true)]

/-- Two calls wait in the queue. -/
def waitsTwice : List Action :=
  joins 0 ⟨"coder", "", "/v1/chat/completions", 10⟩ 0 ++
    [.dispatch (.call 0) (.top [0]), .dispatch (.call 0) (.pick fun _ => none)] ++
    joins 1 ⟨"coder", "", "/v1/chat/completions", 10⟩ 1

set_option maxRecDepth 8000 in
/-- With `MaxJobs` one two rows wait or run; and a queue with `overflow_after` one and no overflow
alias has two waiting jobs, and refuses neither. -/
theorem queue_bounds_exceeded :
    (∃ state, Run (step tightLimits) (fun _ _ => True)
        (start (boundedTables 1 "") [] 0) insertsAtLimit state ∧
      (waitingStats state.nextJob state.rows).1 = 2) ∧
    (∃ state, Run (step defaultLimits) (fun _ _ => True) (start (boundedTables 1 "") [] 0)
        waitsTwice state ∧
      (∃ queue, (boundedTables 1 "").getQueue 1 = some queue ∧ queue.overflowAfter = 1) ∧
        state.count 1 .waiting = 2 ∧ (state.calls 0).sent = [] ∧ (state.calls 1).sent = []) := by
  constructor
  · have ran : ((exec (step tightLimits) (start (boundedTables 1 "") [] 0)
        insertsAtLimit).map fun state => (waitingStats state.nextJob state.rows).1) = some 2 := by
      decide
    rcases Option.map_eq_some_iff.mp ran with ⟨state, executed, rows⟩
    exact ⟨state, run_of_exec executed, rows⟩
  · have ran : ((exec (step defaultLimits) (start (boundedTables 1 "") [] 0) waitsTwice).map
        fun state => (state.count 1 .waiting, (state.calls 0).sent, (state.calls 1).sent)) =
          some (2, [], []) := by
      decide
    rcases Option.map_eq_some_iff.mp ran with ⟨state, executed, facts⟩
    simp only [Prod.mk.injEq] at facts
    exact ⟨state, run_of_exec executed, ⟨_, rfl, rfl⟩, facts⟩

end Runs

end MikroLLM.Queue
