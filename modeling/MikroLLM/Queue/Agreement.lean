import MikroLLM.Queue.Presence
import MikroLLM.Queue.Responses
import MikroLLM.Queue.Rows

/-!
# Memory and disk

When no goroutine is between the change of a job and the write of its row, the
rows that wait or run are those of the registered waiters. It takes that writes
succeed, and that dispatchers and `dropWaiter` keep apart.
-/

namespace MikroLLM.Queue

open Domain Store Go Library

/-- A write of the store that a step makes succeeds. -/
def Action.writesSucceed : Action → Bool
  | .handle _ (.overflowInsert ok) | .handle _ (.overflowSave ok) | .handle _ (.insertWrite ok)
  | .handle _ (.unwind ok) | .dispatch _ (.save ok) | .purge _ (.dropSave ok)
  | .run _ (.finishSave ok) => ok
  | _ => true

/-- Writes succeed, and dispatchers and `dropWaiter` keep apart. -/
def writesApart (state : State) (action : Action) : Bool :=
  action.writesSucceed && rowsApart state action

/-- `run` has started and `Forward` has not returned. -/
def RunPc.started : RunPc → Bool
  | .start | .inForward _ => true
  | _ => false

/-- `finish` has written the row. -/
def RunPc.stored : RunPc → Bool
  | .finishComplete | .exited => true
  | _ => false

/-- The row of a job once every change in memory has been written. -/
structure Written (registered : Bool) (run : RunPc) (drop : DropPc) (row : Option JobStatus) :
    Prop where
  running : registered = true → run.started = true → row = some .running
  dropped : drop.saved = true → row.any (·.isActive) = false
  finished : run.stored = true → row.any (·.isActive) = false

def RowsWritten (state : State) : Prop :=
  ∀ j, Written (state.registered j) (state.runs j) (state.drops j) (rowStatus state.rows j)

section Rows

variable {limits : Limits} {state next : State} {registered : Bool} {pc : RunPc} {drop : DropPc}
  {row : Option JobStatus}

/-- A job that no goroutine has in hand. -/
theorem Written.idle (absent : pc = .absent) (notDropped : drop = .absent) :
    Written registered pc drop row := by
  constructor <;> simp [absent, notDropped, RunPc.started, RunPc.stored, DropPc.saved]

/-- A row that has finished. -/
theorem Written.stale (out : registered = true → pc.started = false)
    (finished : row.any (·.isActive) = false) : Written registered pc drop row := by
  refine ⟨?_, fun _ => finished, fun _ => finished⟩
  intro present started
  simp [out present] at started

/-- One job goes on, and the rows of the others stay. -/
theorem RowsWritten.step_at (j : JobId) (inv : RowsWritten state)
    (others : ∀ k ≠ j, next.registered k = state.registered k ∧ next.runs k = state.runs k ∧
      next.drops k = state.drops k ∧ rowStatus next.rows k = rowStatus state.rows k)
    (own : Written (next.registered j) (next.runs j) (next.drops j) (rowStatus next.rows j)) :
    RowsWritten next := by
  intro k
  rcases eq_or_ne k j with rfl | other
  · exact own
  · rcases others k other with ⟨registered, runs, drops, row⟩
    rw [registered, runs, drops, row]
    exact inv k

/-- Rows that run keep running, and rows that have finished stay so. -/
theorem RowsWritten.mono {rows : JobTable} (inv : RowsWritten state)
    (running : ∀ k, rowStatus state.rows k = some .running → rowStatus rows k = some .running)
    (stale : ∀ k, rowActive state.rows k = false → rowActive rows k = false) :
    RowsWritten (state.setRows rows) := by
  intro k
  have own := inv k
  exact ⟨fun present started => running k (own.running present started),
    fun saved => stale k (own.dropped saved), fun stored => stale k (own.finished stored)⟩

theorem RowsWritten.handle {c : CallId} {action : HandleStep} (inv : RowsWritten state)
    (owned : Ownership state) (move : HandleMove limits state c action next) :
    RowsWritten next := by
  have untouched : ∀ j {row}, ¬Entered state.calls state.writer j →
      Written (state.registered j) (state.runs j) (state.drops j) row := by
    intro j row outside
    rcases owned.untouched outside with ⟨_, absent, notDropped, _⟩
    exact Written.idle absent notDropped
  cases move with
  | @overflowInserted j pc =>
      have inHand : (state.calls c).pc.overflows = some j := by rw [pc]; rfl
      have same := owned.ids j ((owned.calls c).overflowing j (Or.inr inHand)).1
      refine inv.step_at j ?_ (untouched j (owned.overflowing_outside (Or.inr inHand)))
      intro k other
      simp [rowStatus_insertJob, same, other]
  | @inserted j pc =>
      have joins : (state.calls c).pc.joins = some j := by rw [pc]; rfl
      have same := owned.ids j ((owned.calls c).joining j joins).1
      refine inv.step_at j ?_ (untouched j (owned.joining_outside joins))
      intro k other
      simp [rowStatus_insertJob, same, other]
  | @overflowSave j ok pc =>
      have inHand : (state.calls c).pc.overflows = some j := by rw [pc]; rfl
      have same := owned.ids j ((owned.calls c).overflowing j (Or.inr inHand)).1
      refine inv.step_at j ?_ (untouched j (owned.overflowing_outside (Or.inr inHand)))
      intro k other
      cases ok <;> simp [rowStatus_updateJob, same, other]
  | @unwound ok j outer pc frames =>
      have inFrames : j ∈ (state.calls c).frames := by simp [frames]
      have same := owned.ids j ((owned.calls c).overflowing j (Or.inl inFrames)).1
      refine inv.step_at j ?_ (untouched j (owned.overflowing_outside (Or.inl inFrames)))
      intro k other
      cases ok <;> simp [rowStatus_updateJob, unwoundJob, same, other]
  | @register j pc =>
      have joins : (state.calls c).pc.joins = some j := by rw [pc]; rfl
      rcases owned.untouched (owned.joining_outside joins) with ⟨_, absent, notDropped, _⟩
      refine inv.step_at j ?_ (Written.idle absent notDropped)
      intro k other
      simp [other]
  | _ => exact inv

theorem RowsWritten.dispatch {t : Thread} {action : DispatchStep} (inv : RowsWritten state)
    (consistent : Consistent state) (stored : Stored state)
    (apart : writesApart state (.dispatch t action) = true)
    (move : DispatchMove state t action next) : RowsWritten next := by
  have facts := consistent.slots.dispatchers t
  have here := stored.routines t
  cases move with
  | @mark queue head pick routine =>
      rw [routine] at here
      have notDropped := consistent.waiters.not_dropped here
      refine inv.step_at head ?_ ?_
      · intro k other
        simp [other]
      · constructor <;> simp [notDropped, RunPc.started, RunPc.stored, DropPc.saved]
  | @save queue head copied ok routine =>
      rw [routine] at here facts
      have holds : ok = true ∧ (state.drops head).saved = false := by
        simpa [writesApart, Action.writesSucceed, rowsApart, routine] using apart
      rcases holds with ⟨rfl, unsaved⟩
      have waiting := (stored.jobs head).dispatched t facts.2 unsaved
      refine inv.step_at head ?_ ⟨?_, ?_, ?_⟩
      · intro k other
        simp [rowStatus_updateJob, here.1, other]
      · intro present _
        simp [rowStatus_updateJob, here.1, waiting, here.2 present]
      · intro saved
        simp [unsaved] at saved
      · intro finished
        simp [RunPc.stored] at finished
  | _ => exact inv

theorem RowsWritten.purge {t : Thread} {action : PurgeStep} (inv : RowsWritten state)
    (consistent : Consistent state) (stored : Stored state)
    (apart : writesApart state (.purge t action) = true)
    (move : PurgeMove limits state t action next) : RowsWritten next := by
  cases move with
  | aged =>
      exact inv.mono (fun k running => rowStatus_deleteAged running rfl)
        fun k stale => rowActive_deleteAged stale
  | @delete job extra queues routine =>
      have here := stored.routines t
      rw [routine] at here
      have gone := (here job (List.mem_cons_self ..)).2.1
      refine inv.mono ?_ ?_
      · intro k running
        have other : k ≠ job := by
          rintro rfl
          simp [rowActive, running, JobStatus.isActive] at gone
        simpa [rowStatus_deleteJob, other] using running
      · intro k stale
        rcases eq_or_ne k job with rfl | other
        · simp [rowActive, rowStatus_deleteJob]
        · simpa [rowActive, rowStatus_deleteJob, other] using stale
  | @taken j reason after routine free present =>
      refine inv.step_at j ?_ ⟨by simp, by simp [DropPc.saved], ?_⟩
      · intro k other
        simp [other]
      · simpa using (inv j).finished
  | @dropMark j after reason routine pc =>
      have out := consistent.waiters.dropped j (by simp [pc])
      refine inv.step_at j ?_ ⟨by simp [out], by simp [DropPc.saved], ?_⟩
      · intro k other
        simp [other]
      · simpa using (inv j).finished
  | @dropCopy j after routine pc =>
      have out := consistent.waiters.dropped j (by simp [pc])
      refine inv.step_at j ?_ ⟨by simp [out], by simp [DropPc.saved], ?_⟩
      · intro k other
        simp [other]
      · simpa using (inv j).finished
  | @dropSave j after copied ok routine pc =>
      have out := consistent.waiters.dropped j (by simp [pc])
      have copy := (stored.jobs j).dropCopy copied pc
      have holds : ok = true := by simpa [writesApart, Action.writesSucceed, rowsApart] using apart
      subst holds
      refine inv.step_at j ?_ (Written.stale (by simp [out]) ?_)
      · intro k other
        simp [rowStatus_updateJob, copy.1, other]
      · cases row : rowStatus state.rows j <;> simp [rowStatus_updateJob, copy.1, row, copy.2]
  | @dropComplete j after routine pc =>
      have out := consistent.waiters.dropped j (by simp [pc])
      refine inv.step_at j ?_ (Written.stale (by simp [out]) ?_)
      · intro k other
        simp [other]
      · exact (inv j).dropped (by rw [pc]; rfl)
  | _ => exact inv

theorem RowsWritten.run {j : JobId} {action : RunStep} (inv : RowsWritten state)
    (stored : Stored state) (apart : writesApart state (.run j action) = true)
    (move : RunMove state j action next) : RowsWritten next := by
  have own := inv j
  cases move with
  | start pc | write pc =>
      refine inv.step_at j ?_ ⟨?_, ?_, by simp [RunPc.stored]⟩
      · intro k other
        simp [other]
      · exact fun present _ => own.running present (by rw [pc]; rfl)
      · exact own.dropped
  | failed pc | returned pc | fail pc | release pc | noRelease pc | finishCopy pc =>
      refine inv.step_at j ?_ ⟨by simp [RunPc.started], ?_, by simp [RunPc.stored]⟩
      · intro k other
        simp [other]
      · exact own.dropped
  | @finishSave copied ok pc =>
      have copy := (stored.jobs j).runCopy copied pc
      have holds : ok = true := by simpa [writesApart, Action.writesSucceed, rowsApart] using apart
      subst holds
      refine inv.step_at j ?_ (Written.stale (by simp [RunPc.started]) ?_)
      · intro k other
        simp [rowStatus_updateJob, copy.1, other]
      · cases row : rowStatus state.rows j <;> simp [rowStatus_updateJob, copy.1, row, copy.2]
  | finishComplete pc =>
      refine inv.step_at j ?_ (Written.stale (by simp [RunPc.started]) ?_)
      · intro k other
        simp [other]
      · exact own.finished (by rw [pc]; rfl)

/-- Every write keeps the rows of settled jobs right. -/
theorem RowsWritten.step {action : Action} (inv : RowsWritten state)
    (consistent : Consistent state) (stored : Stored state)
    (apart : writesApart state action = true) (fires : step limits state action = some next) :
    RowsWritten next := by
  cases action with
  | advance seconds | editQueues tables => cases fires; exact inv
  | handle c action => exact inv.handle consistent.owned (handle_moves fires)
  | dispatch t action => exact inv.dispatch consistent stored apart (dispatch_moves fires)
  | purge t action => exact inv.purge consistent stored apart (purge_moves fires)
  | run j action => exact inv.run stored apart (run_moves fires)
  | loop action => cases loop_moves fires <;> exact inv

end Rows

/-- The `run` goroutine has nothing to write: it does not exist, or is inside `Forward`. -/
def RunPc.settled : RunPc → Bool
  | .absent | .inForward _ | .exited => true
  | _ => false

/-- `dropWaiter` has nothing to write. -/
def DropPc.settled : DropPc → Bool
  | .absent | .finished => true
  | _ => false

/-- No goroutine is between the change of a job in memory and the write of its row. -/
structure Settled (state : State) : Prop where
  calls : ∀ c j, (state.calls c).pc ≠ .register j
  runs : ∀ j, (state.runs j).settled = true
  drops : ∀ j, (state.drops j).settled = true

section Runs

variable {limits : Limits} {tables : QueueTables} {history : List QueueJob} {clock : ℕ}
  {trace : List Action} {state : State}

/-- What `rows_agree` rests on. -/
structure Agreeing (state : State) : Prop where
  presence : Presence state
  stored : Stored state
  written : RowsWritten state

theorem agreeing_of_run (run : Run (step limits) (fun state action => writesApart state action)
    (start tables history clock) trace state) : Agreeing state := by
  refine invariant_of_run run ⟨presence_start, stored_start, ?_⟩ ?_
  · intro j
    exact Written.idle rfl rfl
  · intro state next action consistent inv apart fires
    have rows : rowsApart state action = true := by
      simp only [writesApart, Bool.and_eq_true] at apart
      exact apart.2
    exact ⟨inv.presence.step consistent fires, inv.stored.step consistent rows fires,
      inv.written.step consistent inv.stored apart fires⟩

/-- In a settled state a row that waits or runs belongs to a registered waiter with that status,
and the other way round. -/
theorem row_iff_registered (consistent : Consistent state) (inv : Agreeing state)
    (settled : Settled state) (j : JobId) (status : JobStatus) (active : status.isActive = true) :
    rowStatus state.rows j = some status ↔
      state.registered j = true ∧ (state.heap j).status = status := by
  have forward : state.registered j = true → (rowStatus state.rows j = some .waiting ∧
      (state.heap j).status = .waiting) ∨ (rowStatus state.rows j = some .running ∧
        (state.heap j).status = .running) := by
    intro present
    have quiet := settled.runs j
    cases run : state.runs j with
    | absent =>
        exact Or.inl ⟨(inv.stored.jobs j).waiting present run,
          consistent.waiters.waiting j present run⟩
    | inForward wrote =>
        refine Or.inr ⟨(inv.written j).running present (by rw [run]; rfl), ?_⟩
        exact (inv.stored.jobs j).serving present (by rw [run]; rfl)
    | exited =>
        rw [consistent.waiters.finished j (by rw [run]; rfl)] at present
        cases present
    | _ => simp [run, RunPc.settled] at quiet
  constructor
  · intro row
    have live : rowActive state.rows j = true := by simp [rowActive, row, active]
    have entered : Entered state.calls state.writer j := by
      by_contra outside
      rw [inv.stored.outside j outside fun c => settled.calls c j] at live
      cases live
    have present : state.registered j = true := by
      rcases inv.presence.present j entered with present | dropped | finished
      · exact present
      · have quiet := settled.drops j
        have stale : (state.drops j).saved = true := by
          cases drop : state.drops j <;> simp_all [DropPc.settled, DropPc.saved]
        simpa [row, active] using (inv.written j).dropped stale
      · have quiet := settled.runs j
        have stale : (state.runs j).stored = true := by
          cases run : state.runs j <;> simp_all [RunPc.settled, RunPc.finished, RunPc.stored]
        simpa [row, active] using (inv.written j).finished stale
    refine ⟨present, ?_⟩
    rcases forward present with ⟨stored, held⟩ | ⟨stored, held⟩ <;>
      · rw [stored, Option.some.injEq] at row
        exact held.trans row
  · rintro ⟨present, held⟩
    rcases forward present with ⟨stored, status'⟩ | ⟨stored, status'⟩ <;>
      rw [stored, ← held, status']

/-- Memory and disk agree. In every settled state that a run with `writesApart` reaches, the rows
that wait or run are those of the registered waiters, with the same status; and once every call has
returned `WaitingStats` counts nothing. -/
theorem memory_agrees_with_disk
    (run : Run (step limits) (fun state action => writesApart state action)
      (start tables history clock) trace state) (settled : Settled state) :
    (∀ j status, status.isActive = true → (rowStatus state.rows j = some status ↔
      state.registered j = true ∧ (state.heap j).status = status)) ∧
    ((∀ c, (state.calls c).pc = .idle ∨ (state.calls c).pc = .returned) →
      waitingStats state.nextJob state.rows = (0, 0)) := by
  have consistent := consistent_of_run run
  have inv := agreeing_of_run run
  refine ⟨row_iff_registered consistent inv settled, ?_⟩
  intro quiet
  apply waitingStats_eq_zero inv.stored.ids
  intro j
  cases row : rowStatus state.rows j with
  | none => simp [rowActive, row]
  | some status =>
      rw [rowActive_of_rowStatus row]
      by_contra live
      have active : status.isActive = true := by simpa using live
      have present := ((row_iff_registered consistent inv settled j status active).mp row).1
      -- a registered waiter has a call that waits
      have entered := consistent.owned.jobs.registered j present
      rcases ((consistent.owned.calls _).waiting j entered).2.2.2 with waits | leaves
      · rcases quiet (state.writer j) with idle | returned
        · simp [idle, CallPc.waits] at waits
        · simp [returned, CallPc.waits] at waits
      · rw [inv.presence.left _ j entered leaves] at present
        cases present

/-- Jobs above the next identifier are settled. -/
theorem Settled.of_below (consistent : Consistent state)
    (calls : ∀ j < state.nextJob, (state.calls (state.writer j)).pc ≠ .register j)
    (runs : ∀ j < state.nextJob, (state.runs j).settled = true)
    (drops : ∀ j < state.nextJob, (state.drops j).settled = true) : Settled state := by
  have below : ∀ j, Entered state.calls state.writer j → j < state.nextJob :=
    fun j entered => ((consistent.owned.calls _).waiting j entered).1
  refine ⟨?_, ?_, ?_⟩
  · intro c j pc
    have joins : (state.calls c).pc.joins = some j := by rw [pc]; rfl
    have facts := (consistent.owned.calls c).joining j joins
    apply calls j facts.1
    rw [facts.2.1]
    exact pc
  · intro j
    by_cases present : state.runs j = .absent
    · rw [present]
      rfl
    · exact runs j (below j (consistent.owned.jobs.runs j present))
  · intro j
    by_cases present : state.drops j = .absent
    · rw [present]
      rfl
    · exact drops j (below j (consistent.owned.jobs.drops j present))

/-- The facts of a settled state that can be evaluated. -/
def settledBelow (state : State) : Bool :=
  (List.range state.nextJob).all fun j =>
    (state.calls (state.writer j)).pc ≠ .register j && (state.runs j).settled &&
      (state.drops j).settled

theorem settled_of_settledBelow (consistent : Consistent state)
    (settled : settledBelow state = true) : Settled state := by
  simp only [settledBelow, List.all_eq_true, List.mem_range, Bool.and_eq_true,
    decide_eq_true_eq] at settled
  exact Settled.of_below consistent (fun j below => (settled j below).1.1)
    (fun j below => (settled j below).1.2) fun j below => (settled j below).2

/-- A call whose job runs. -/
def servesAlone : List Action :=
  joins 0 ⟨"coder", "", "/v1/chat/completions", 10⟩ 0 ++ dispatches (.call 0) [0] ++ [.run 0 .start]

theorem memory_agrees_with_disk_coder :
    ∃ state, Run (step defaultLimits) (fun state action => writesApart state action)
        (start coderTables [] 0) servesAlone state ∧ Settled state ∧
      (rowStatus state.rows 0 = some .running ↔
        state.registered 0 = true ∧ (state.heap 0).status = .running) ∧
      rowStatus state.rows 0 = some .running := by
  have ran : ((execWhen (step defaultLimits) writesApart (start coderTables [] 0)
      servesAlone).map fun state => (settledBelow state, rowStatus state.rows 0)) =
        some (true, some .running) := by
    decide
  rcases Option.map_eq_some_iff.mp ran with ⟨state, executed, facts⟩
  simp only [Prod.mk.injEq] at facts
  have run := run_of_execWhen executed
  have settled := settled_of_settledBelow (consistent_of_run run) facts.1
  exact ⟨state, run, settled, (memory_agrees_with_disk run settled).1 0 .running rfl, facts.2⟩

/-- The loop drops the waiter between the second check of the dispatcher and its write. -/
def droppedBeforeSave : List Action :=
  let marks : List DispatchStep :=
    [.top [0], .pick fun _ => some ("backend", "provider"), .check, .mark, .copy]
  joins 0 ⟨"coder", "", "/v1/chat/completions", 10⟩ 0 ++ marks.map (.dispatch (.call 0)) ++
    [.loop .tick, .purge .loop .stats, .purge .loop .oldest, .purge .loop .next] ++
    dropsWaiter .loop ++ [.dispatch (.call 0) (.save true), .run 0 .start]

/-- The loop drops the waiter around the second critical section of the dispatcher, and writes its
copy of the job after the job has finished. -/
def droppedAfterFinish : List Action :=
  joins 0 ⟨"coder", "", "/v1/chat/completions", 10⟩ 0 ++
    [.dispatch (.call 0) (.top [0]),
      .dispatch (.call 0) (.pick fun _ => some ("backend", "provider")),
      .loop .tick, .purge .loop .stats, .purge .loop .oldest, .purge .loop .next,
      .purge .loop .dropLock, .dispatch (.call 0) .check, .purge .loop .dropMark,
      .dispatch (.call 0) .mark, .dispatch (.call 0) .copy, .dispatch (.call 0) (.save true),
      .run 0 .start, .purge .loop .dropCopy, .run 0 .write,
      .run 0 (.return ⟨"backend", "provider", 200, none⟩), .run 0 .finishLock, .run 0 .finishCopy,
      .run 0 (.finishSave true), .purge .loop (.dropSave true), .purge .loop .dropComplete,
      .run 0 .finishComplete, .dispatch (.call 0) (.top []), .handle 0 .receive,
      .handle 0 (.unwind true)]

set_option maxRecDepth 8000 in
/-- A row runs in a settled state without a registered waiter; and a row runs, and is counted, when
the only call has returned and its job has finished. All writes succeed. -/
theorem memory_disagrees_with_disk :
    (∃ state, Run (step tightLimits) (fun _ _ => True) (start coderTables [] 0) droppedBeforeSave
        state ∧ (∀ action ∈ droppedBeforeSave, action.writesSucceed = true) ∧ Settled state ∧
      rowStatus state.rows 0 = some .running ∧ state.registered 0 = false) ∧
    (∃ state, Run (step tightLimits) (fun _ _ => True) (start coderTables [] 0) droppedAfterFinish
        state ∧ (∀ action ∈ droppedAfterFinish, action.writesSucceed = true) ∧ Settled state ∧
      (state.calls 0).pc = .returned ∧ state.runs 0 = .exited ∧
        waitingStats state.nextJob state.rows = (1, 10)) := by
  constructor
  · have ran : ((exec (step tightLimits) (start coderTables [] 0) droppedBeforeSave).map
        fun state => (settledBelow state, rowStatus state.rows 0, state.registered 0)) =
          some (true, some .running, false) := by
      decide
    rcases Option.map_eq_some_iff.mp ran with ⟨state, executed, facts⟩
    simp only [Prod.mk.injEq] at facts
    have run := run_of_exec executed
    exact ⟨state, run, by decide, settled_of_settledBelow (consistent_of_run run) facts.1, facts.2⟩
  · have ran : ((exec (step tightLimits) (start coderTables [] 0) droppedAfterFinish).map
        fun state => (settledBelow state, (state.calls 0).pc, state.runs 0,
          waitingStats state.nextJob state.rows)) = some (true, .returned, .exited, (1, 10)) := by
      decide
    rcases Option.map_eq_some_iff.mp ran with ⟨state, executed, facts⟩
    simp only [Prod.mk.injEq] at facts
    have run := run_of_exec executed
    exact ⟨state, run, by decide, settled_of_settledBelow (consistent_of_run run) facts.1, facts.2⟩

end Runs

end MikroLLM.Queue
