import MikroLLM.Queue.Ownership

/-!
# Rows and waiters

The engine writes the row of a job outside the lock, after it changed the job in
memory. For one job these writes can be made by a dispatcher, by `dropWaiter` and
by `finish`, and nothing orders the first two. As long as a dispatcher takes only
waiters that are still registered and writes before `dropWaiter` has written, no
write makes a finished row wait or run again.
-/

namespace MikroLLM.Queue

open Domain Store Go Library

/-- `dropWaiter` has changed the job in memory. -/
def DropPc.marked : DropPc → Bool
  | .copy | .save _ | .complete | .finished => true
  | .absent | .mark _ => false

/-- `dropWaiter` has written the row. -/
def DropPc.saved : DropPc → Bool
  | .complete | .finished => true
  | _ => false

/-- The job runs: it was dispatched and `Forward` has not returned. -/
def RunPc.serving : RunPc → Bool
  | .dispatched _ | .start | .inForward _ => true
  | _ => false

/-- `Forward` has returned. -/
def RunPc.returned : RunPc → Bool
  | .failing _ | .finishLock | .finishCopy | .finishSave _ | .finishComplete | .exited => true
  | _ => false

/-- The steps that keep dispatchers and `dropWaiter` apart: a dispatcher takes only a waiter that
is still registered, and writes its row before `dropWaiter` wrote it. -/
def rowsApart (state : State) : Action → Bool
  | .dispatch t .check =>
      match state.routines t with
      | .dispatchCheck _ head pick =>
          (state.heap head).status ≠ .waiting || state.inflight pick.model ≥ pick.cap ||
            state.registered head
      | _ => true
  | .dispatch t (.save _) =>
      match state.routines t with
      | .dispatchSave _ head _ => !(state.drops head).saved
      | _ => true
  | _ => true

/-- The row of a job that has not been written since the job changed in memory, and what the
copies hold that are still to be written. -/
structure JobRow (j : JobId) (registered : Bool) (run : RunPc) (drop : DropPc) (status : JobStatus)
    (row : Option JobStatus) : Prop where
  waiting : registered = true → run = .absent → row = some .waiting
  dispatched : ∀ t, run = .dispatched t → drop.saved = false → row = some .waiting
  serving : registered = true → run.serving = true → status = .running
  marked : drop.marked = true → status.isActive = false
  returned : run.returned = true → status.isActive = false
  dropCopy : ∀ copied, drop = .save copied → copied.id = j ∧ copied.status.isActive = false
  runCopy : ∀ copied, run = .finishSave copied → copied.id = j ∧ copied.status.isActive = false

structure CallRows (rows : JobTable) (heap : JobId → QueueJob) (call : Call) : Prop where
  fresh : ∀ j, call.pc = .insertWrite j → rows j = none
  joined : ∀ j, call.pc = .register j → rowStatus rows j = some .waiting
  overflow : ∀ j, j ∈ call.frames ∨ call.pc.overflows = some j → (heap j).status.isActive = false

/-- No step makes the row wait or run any more. -/
def Gone (rows : JobTable) (calls : CallId → Call) (bound id : JobId) : Prop :=
  id < bound ∧ rowActive rows id = false ∧ ∀ c, (calls c).pc ≠ .insertWrite id

def RoutineRows (registered : JobId → Bool) (rows : JobTable) (calls : CallId → Call)
    (bound : JobId) : Routine → Prop
  | .dispatchMark _ head _ => registered head = true
  | .dispatchSave _ head copied =>
      copied.id = head ∧ (registered head = true → copied.status = .running)
  | .purgeDelete extra _ => ∀ id ∈ extra, Gone rows calls bound id
  | _ => True

structure Stored (state : State) : Prop where
  ids : RowIds state.rows state.nextJob
  calls : ∀ c, CallRows state.rows state.heap (state.calls c)
  outside : ∀ j, ¬Entered state.calls state.writer j → (∀ c, (state.calls c).pc ≠ .register j) →
    rowActive state.rows j = false
  jobs : ∀ j, JobRow j (state.registered j) (state.runs j) (state.drops j) (state.heap j).status
    (rowStatus state.rows j)
  routines : ∀ t, RoutineRows state.registered state.rows state.calls state.nextJob
    (state.routines t)

section Jobs

variable {j : JobId} {registered : Bool} {run : RunPc} {drop : DropPc} {status : JobStatus}
  {row row' : Option JobStatus}

/-- A job that is not in the hands of any goroutine. -/
theorem JobRow.idle : JobRow j false .absent .absent status row := by
  constructor <;> simp [DropPc.marked, RunPc.returned]

theorem JobRow.mono (stored : JobRow j registered run drop status row)
    (kept : row = some .waiting → row' = some .waiting) :
    JobRow j registered run drop status row' :=
  ⟨fun present absent => kept (stored.waiting present absent),
    fun t at_ unsaved => kept (stored.dispatched t at_ unsaved), stored.serving, stored.marked,
    stored.returned, stored.dropCopy, stored.runCopy⟩

theorem JobRow.join : JobRow j true .absent .absent .waiting (some .waiting) := by
  constructor <;> simp [DropPc.marked, RunPc.returned, RunPc.serving]

theorem JobRow.mark {t : Thread} (stored : JobRow j true .absent .absent status row) :
    JobRow j true (.dispatched t) .absent .running row := by
  have waiting := stored.waiting rfl rfl
  constructor <;> simp [DropPc.marked, RunPc.returned, waiting]

/-- `dropWaiter` takes the waiter out of the map. -/
theorem JobRow.take {reason : String} (stored : JobRow j registered run .absent status row) :
    JobRow j false run (.mark reason) status row :=
  ⟨by simp, fun t at_ _ => stored.dispatched t at_ rfl, by simp, by simp [DropPc.marked],
    stored.returned, by simp, stored.runCopy⟩

theorem JobRow.dropMark {reason : String} (stored : JobRow j false run (.mark reason) status row) :
    JobRow j false run .copy .dropped row :=
  ⟨by simp, fun t at_ _ => stored.dispatched t at_ rfl, by simp, fun _ => rfl, fun _ => rfl,
    by simp, stored.runCopy⟩

theorem JobRow.dropCopy_ {copied : QueueJob}
    (stored : JobRow j false run .copy copied.status row) (same : copied.id = j) :
    JobRow j false run (.save copied) copied.status row := by
  refine ⟨by simp, fun t at_ _ => stored.dispatched t at_ rfl, by simp, fun _ => stored.marked rfl,
    stored.returned, ?_, stored.runCopy⟩
  intro other isCopy
  cases isCopy
  exact ⟨same, stored.marked rfl⟩

/-- `dropWaiter` has written the row. -/
theorem JobRow.dropSaved {drop' : DropPc} (stored : JobRow j false run drop status row)
    (marked : drop.marked = true) (saved : drop'.saved = true) :
    JobRow j false run drop' status row' := by
  refine ⟨by simp, ?_, by simp, fun _ => stored.marked marked, stored.returned, ?_, stored.runCopy⟩
  · intro t _ unsaved
    rw [saved] at unsaved
    cases unsaved
  · rintro copied rfl
    cases saved

/-- `run` goes on between the first write of the row and the return of `Forward`. -/
theorem JobRow.serve {run' : RunPc} (stored : JobRow j registered run drop status row)
    (running : registered = true → status = .running)
    (after : run' = .start ∨ ∃ wrote, run' = .inForward wrote) :
    JobRow j registered run' drop status row' := by
  rcases after with rfl | ⟨wrote, rfl⟩ <;>
    exact ⟨by simp, by simp, fun present _ => running present, stored.marked,
      by simp [RunPc.returned], stored.dropCopy, by simp⟩

/-- `Forward` has returned. -/
theorem JobRow.finish {run' : RunPc} {registered' : Bool} {status' : JobStatus}
    (stored : JobRow j registered run drop status row) (after : run'.returned = true)
    (notCopy : ∀ copied, run' ≠ .finishSave copied) (finished : status'.isActive = false) :
    JobRow j registered' run' drop status' row' := by
  refine ⟨?_, ?_, ?_, fun _ => finished, fun _ => finished, stored.dropCopy, ?_⟩
  · rintro _ rfl
    cases after
  · rintro t rfl
    cases after
  · intro _ serving
    cases run' <;> simp_all [RunPc.returned, RunPc.serving]
  · intro copied isCopy
    exact (notCopy copied isCopy).elim

theorem JobRow.finishCopy {copied : QueueJob}
    (stored : JobRow j registered .finishCopy drop copied.status row) (same : copied.id = j) :
    JobRow j registered (.finishSave copied) drop copied.status row := by
  refine ⟨by simp, by simp, by simp [RunPc.serving], stored.marked, fun _ => stored.returned rfl,
    stored.dropCopy, ?_⟩
  intro other isCopy
  cases isCopy
  exact ⟨same, stored.returned rfl⟩

end Jobs

section Steps

variable {limits : Limits} {state next : State} {c : CallId}

/-- A call goes on, and the rows stay. -/
theorem Stored.setCall {call : Call} (inv : Stored state)
    (own : CallRows state.rows state.heap call)
    (waiter : ∀ k, (state.calls c).waiter = some k → call.waiter = some k)
    (notRegister : ∀ j, (state.calls c).pc ≠ .register j)
    (notInsert : ∀ j, call.pc ≠ .insertWrite j) : Stored (state.setCall c call) := by
  refine ⟨inv.ids, ?_, ?_, inv.jobs, ?_⟩
  · intro other
    rcases eq_or_ne other c with rfl | different
    · simpa using own
    · simpa [different] using inv.calls other
  · intro j outside apart
    refine inv.outside j (fun entered => outside (entered_setCall waiter entered)) ?_
    intro other
    rcases eq_or_ne other c with rfl | different
    · exact notRegister j
    · simpa [different] using apart other
  · intro t
    have facts := inv.routines t
    change RoutineRows _ _ _ _ (state.routines t)
    cases routine : state.routines t with
    | purgeDelete extra queues =>
        rw [routine] at facts
        intro id listed
        rcases facts id listed with ⟨below, stale, notFresh⟩
        refine ⟨below, stale, ?_⟩
        intro other
        rcases eq_or_ne other c with rfl | different
        · simpa using notInsert id
        · simpa [different] using notFresh other
    | _ =>
        rw [routine] at facts
        exact facts

/-- A goroutine moves inside a shared routine. -/
theorem Stored.setRoutine {t : Thread} {routine : Routine} (inv : Stored state)
    (own : RoutineRows state.registered state.rows state.calls state.nextJob routine) :
    Stored (state.setRoutine t routine) := by
  refine ⟨inv.ids, inv.calls, inv.outside, inv.jobs, ?_⟩
  intro other
  rcases eq_or_ne other t with rfl | different
  · simpa using own
  · simpa [different] using inv.routines other

theorem Gone.mono {rows rows' : JobTable} {calls : CallId → Call} {bound id : JobId}
    (gone : Gone rows calls bound id)
    (stale : rowActive rows id = false → rowActive rows' id = false) :
    Gone rows' calls bound id :=
  ⟨gone.1, stale gone.2.1, gone.2.2⟩

/-- The rows change, and no row that waits or runs is touched. -/
theorem Stored.setRows {rows : JobTable} (inv : Stored state) (ids : RowIds rows state.nextJob)
    (fresh : ∀ c k, (state.calls c).pc = .insertWrite k → state.rows k = none → rows k = none)
    (waiting : ∀ k, rowStatus state.rows k = some .waiting → rowStatus rows k = some .waiting)
    (stale : ∀ k, rowActive state.rows k = false → rowActive rows k = false) :
    Stored (state.setRows rows) := by
  refine ⟨ids, ?_, ?_, ?_, ?_⟩
  · intro other
    have facts := inv.calls other
    exact ⟨fun j pc => fresh other j pc (facts.fresh j pc),
      fun j pc => waiting j (facts.joined j pc), facts.overflow⟩
  · intro j outside apart
    exact stale j (inv.outside j outside apart)
  · intro j
    exact (inv.jobs j).mono (waiting j)
  · intro t
    have facts := inv.routines t
    change RoutineRows _ _ _ _ (state.routines t)
    cases routine : state.routines t with
    | purgeDelete extra queues =>
        rw [routine] at facts
        intro id listed
        exact (facts id listed).mono (stale id)
    | _ =>
        rw [routine] at facts
        exact facts

/-- One job that entered goes on. -/
theorem Stored.goOn (j : JobId) (inv : Stored state) (owned : Ownership state)
    (entered : Entered state.calls state.writer j) (calls : next.calls = state.calls)
    (writer : next.writer = state.writer) (nextJob : next.nextJob = state.nextJob)
    (routines : next.routines = state.routines)
    (others : ∀ k ≠ j, next.registered k = state.registered k ∧ next.runs k = state.runs k ∧
      next.drops k = state.drops k ∧ next.heap k = state.heap k ∧
        rowStatus next.rows k = rowStatus state.rows k)
    (ids : RowIds next.rows state.nextJob) (none : ∀ k, state.rows k = none → next.rows k = none)
    (fewer : next.registered j = true → state.registered j = true)
    (marked : ∀ t queue pick, state.routines t = .dispatchMark queue j pick →
      next.registered j = true)
    (stale : rowActive state.rows j = false → rowActive next.rows j = false)
    (own : JobRow j (next.registered j) (next.runs j) (next.drops j) (next.heap j).status
      (rowStatus next.rows j)) : Stored next := by
  have stays : ∀ k, rowActive state.rows k = false → rowActive next.rows k = false := by
    intro k
    rcases eq_or_ne k j with rfl | other
    · exact stale
    · simp [rowActive, (others k other).2.2.2.2]
  refine ⟨nextJob ▸ ids, ?_, ?_, ?_, ?_⟩
  · intro c
    have facts := inv.calls c
    rw [calls]
    refine ⟨fun k pc => none k (facts.fresh k pc), ?_, ?_⟩
    · intro k pc
      have other : k ≠ j := by
        rintro rfl
        exact owned.joining_outside (c := c) (by rw [pc]; rfl) entered
      rw [(others k other).2.2.2.2]
      exact facts.joined k pc
    · intro k overflows
      have other : k ≠ j := by
        rintro rfl
        exact owned.overflowing_outside overflows entered
      rw [(others k other).2.2.2.1]
      exact facts.overflow k overflows
  · intro k outside apart
    rw [calls] at outside apart
    rw [writer] at outside
    exact stays k (inv.outside k outside apart)
  · intro k
    rcases eq_or_ne k j with rfl | other
    · exact own
    · rcases others k other with ⟨registered, runs, drops, heap, row⟩
      rw [registered, runs, drops, heap, row]
      exact inv.jobs k
  · intro t
    have facts := inv.routines t
    rw [routines, calls, nextJob]
    cases routine : state.routines t with
    | dispatchMark queue head pick =>
        rw [routine] at facts
        rcases eq_or_ne head j with rfl | other
        · exact marked t queue pick routine
        · exact (others head other).1.trans facts
    | dispatchSave queue head copied =>
        rw [routine] at facts
        refine ⟨facts.1, ?_⟩
        intro present
        apply facts.2
        rcases eq_or_ne head j with rfl | other
        · exact fewer present
        · rwa [(others head other).1] at present
    | purgeDelete extra queues =>
        rw [routine] at facts
        intro id listed
        exact (facts id listed).mono (stays id)
    | _ => trivial

/-- A job goes on without a change to the map of waiters or to the rows. -/
theorem Stored.keep (j : JobId) (inv : Stored state) (owned : Ownership state)
    (entered : Entered state.calls state.writer j) (calls : next.calls = state.calls)
    (writer : next.writer = state.writer) (nextJob : next.nextJob = state.nextJob)
    (routines : next.routines = state.routines) (registered : next.registered = state.registered)
    (rows : next.rows = state.rows)
    (others : ∀ k ≠ j, next.runs k = state.runs k ∧ next.drops k = state.drops k ∧
      next.heap k = state.heap k)
    (own : JobRow j (state.registered j) (next.runs j) (next.drops j) (next.heap j).status
      (rowStatus state.rows j)) : Stored next := by
  refine inv.goOn j owned entered calls writer nextJob routines ?_ ?_ ?_ ?_ ?_ ?_ ?_
  · intro k other
    rcases others k other with ⟨runs, drops, heap⟩
    exact ⟨congrFun registered k, runs, drops, heap, by rw [rows]⟩
  · rw [rows]
    exact inv.ids
  · rw [rows]
    exact fun _ absent => absent
  · rw [registered]
    exact id
  · intro t queue pick marks
    have facts := inv.routines t
    rw [marks] at facts
    rw [registered]
    exact facts
  · rw [rows]
    exact id
  · rwa [registered, rows]

/-- A job goes on and its row is written. -/
theorem Stored.keepSaved {ok : Bool} {copied : QueueJob} (j : JobId) (inv : Stored state)
    (owned : Ownership state) (entered : Entered state.calls state.writer j)
    (calls : next.calls = state.calls) (writer : next.writer = state.writer)
    (nextJob : next.nextJob = state.nextJob) (routines : next.routines = state.routines)
    (registered : next.registered = state.registered)
    (rows : next.rows = (state.saveJob ok copied).rows) (same : copied.id = j)
    (stale : rowActive state.rows j = false → copied.status.isActive = false)
    (others : ∀ k ≠ j, next.runs k = state.runs k ∧ next.drops k = state.drops k ∧
      next.heap k = state.heap k)
    (own : JobRow j (state.registered j) (next.runs j) (next.drops j) (next.heap j).status
      (rowStatus (state.saveJob ok copied).rows j)) : Stored next := by
  refine inv.goOn j owned entered calls writer nextJob routines ?_ ?_ ?_ ?_ ?_ ?_ ?_
  · intro k other
    rcases others k other with ⟨runs, drops, heap⟩
    refine ⟨congrFun registered k, runs, drops, heap, ?_⟩
    rw [rows]
    cases ok <;> simp [rowStatus_updateJob, same, other]
  · rw [rows]
    cases ok with
    | true => exact inv.ids.updateJob
    | false => exact inv.ids
  · intro k absent
    rw [rows]
    cases ok with
    | true =>
        rcases eq_or_ne k copied.id with rfl | other
        · simp [updateJob, absent]
        · simpa [updateJob, other] using absent
    | false => exact absent
  · rw [registered]
    exact id
  · intro t queue pick marks
    have facts := inv.routines t
    rw [marks] at facts
    rw [registered]
    exact facts
  · intro inactive
    rw [rows]
    cases ok with
    | true =>
        cases stored : rowStatus state.rows j <;>
          simp [rowActive, rowStatus_updateJob, same, stored, stale inactive]
    | false => exact inactive
  · rwa [registered, rows]

/-- The row of an overflow job is not waiting and not running. -/
theorem Stored.overflow_stale {j : JobId} (inv : Stored state) (owned : Ownership state)
    (overflows : j ∈ (state.calls c).frames ∨ (state.calls c).pc.overflows = some j) :
    rowActive state.rows j = false := by
  apply inv.outside j (owned.overflowing_outside overflows)
  intro other pc
  have joins : (state.calls other).pc.joins = some j := by rw [pc]; rfl
  exact ((owned.calls c).overflowing j overflows).2.2 ((owned.calls other).joining j joins).2.2.2.2.1

theorem Stored.setJob {j : JobId} {job : QueueJob} (inv : Stored state)
    (owned : Ownership state) (outside : ¬Entered state.calls state.writer j)
    (finished : job.status.isActive = false) : Stored (state.setJob j job) := by
  refine ⟨inv.ids, ?_, inv.outside, ?_, inv.routines⟩
  · intro other
    have facts := inv.calls other
    refine ⟨facts.fresh, facts.joined, ?_⟩
    intro k overflows
    rcases eq_or_ne k j with rfl | apart
    · simpa using finished
    · simpa [apart] using facts.overflow k overflows
  · intro k
    rcases eq_or_ne k j with rfl | apart
    · rcases owned.untouched outside with ⟨out, absent, notDropped, _⟩
      simpa [out, absent, notDropped] using JobRow.idle
    · simpa [apart] using inv.jobs k

/-- A finished job is written to a row that does not wait or run. -/
theorem Stored.save {ok : Bool} {job : QueueJob} (inv : Stored state)
    (stale : rowActive state.rows job.id = false) (finished : job.status.isActive = false) :
    Stored (state.saveJob ok job) := by
  cases ok with
  | false => exact ⟨inv.ids, inv.calls, inv.outside, inv.jobs, inv.routines⟩
  | true =>
      refine inv.setRows inv.ids.updateJob ?_ ?_ ?_
      · intro c k _ absent
        rcases eq_or_ne k job.id with rfl | apart
        · simp [updateJob, absent]
        · simp [updateJob, apart, absent]
      · intro k waiting
        have apart : k ≠ job.id := by
          rintro rfl
          simp [rowActive, waiting, JobStatus.isActive] at stale
        simpa [rowStatus_updateJob, apart] using waiting
      · intro k inactive
        rcases eq_or_ne k job.id with rfl | apart
        · cases stored : rowStatus state.rows job.id with
          | none => simp [rowActive, rowStatus_updateJob, stored]
          | some status => simp [rowActive, rowStatus_updateJob, stored, finished]
        · simpa [rowActive, rowStatus_updateJob, apart] using inactive

/-- The row of an overflow job is inserted. -/
theorem Stored.insertOverflow {j : JobId} (inv : Stored state) (owned : Ownership state)
    (inHand : (state.calls c).pc.overflows = some j) : Stored (state.insertRow (state.heap j)) := by
  have facts := (owned.calls c).overflowing j (Or.inr inHand)
  have same : (state.heap j).id = j := owned.ids j facts.1
  have finished := (inv.calls c).overflow j (Or.inr inHand)
  have stale := inv.overflow_stale owned (c := c) (Or.inr inHand)
  have stored : Stored (state.setRows (insertJob state.rows (state.heap j))) := by
    refine inv.setRows (inv.ids.insertJob (same.trans_lt facts.1)) ?_ ?_ ?_
    · intro other k pc absent
      have joins : (state.calls other).pc.joins = some k := by rw [pc]; rfl
      have apart : k ≠ (state.heap j).id := by
        rw [same]
        rintro rfl
        exact facts.2.2 ((owned.calls other).joining k joins).2.2.2.2.1
      simp [insertJob, apart, absent]
    · intro k waiting
      have apart : k ≠ (state.heap j).id := by
        rw [same]
        rintro rfl
        simp [rowActive, waiting, JobStatus.isActive] at stale
      simpa [rowStatus_insertJob, apart] using waiting
    · intro k inactive
      rcases eq_or_ne k (state.heap j).id with rfl | apart
      · simp [rowActive, rowStatus_insertJob, finished]
      · simpa [rowActive, rowStatus_insertJob, apart] using inactive
  exact ⟨stored.ids, stored.calls, stored.outside, stored.jobs, stored.routines⟩

/-- A call allocates a job. -/
theorem Stored.allocate {job : QueueJob} {pc : CallPc} (inv : Stored state)
    (owned : Ownership state) (notRegister : ∀ j, (state.calls c).pc ≠ .register j)
    (place : pc = .insertWrite state.nextJob ∨
      (pc = .overflowInsert state.nextJob ∧ job.status.isActive = false)) :
    Stored ((state.allocate c job).setPc c pc) := by
  have outside : ¬Entered state.calls state.writer state.nextJob := by
    intro entered
    exact absurd ((owned.calls _).waiting _ entered).1 (Nat.lt_irrefl _)
  refine ⟨inv.ids.mono (Nat.le_succ _), ?_, ?_, ?_, ?_⟩
  · intro other
    have facts := inv.calls other
    have old : ∀ j, j ∈ (state.calls other).frames ∨ (state.calls other).pc.overflows = some j →
        (Function.update state.heap state.nextJob job j).status.isActive = false := by
      intro j overflows
      have apart : j ≠ state.nextJob := ((owned.calls other).overflowing j overflows).1.ne
      simpa [apart] using facts.overflow j overflows
    rcases eq_or_ne other c with rfl | different
    · refine ⟨?_, ?_, ?_⟩
      · intro j isFresh
        have same : state.nextJob = j := by
          rcases place with rfl | ⟨rfl, _⟩
          · simpa using isFresh
          · simp at isFresh
        subst same
        cases found : state.rows state.nextJob with
        | none => simpa using found
        | some row => exact absurd (inv.ids _ row found).2 (Nat.lt_irrefl _)
      · intro j joined
        rcases place with rfl | ⟨rfl, _⟩ <;> simp at joined
      · intro j overflows
        rcases overflows with frame | inHand
        · exact old j (Or.inl (by simpa using frame))
        · rcases place with rfl | ⟨rfl, finished⟩
          · simp [CallPc.overflows] at inHand
          · have same : state.nextJob = j := by simpa [CallPc.overflows] using inHand
            subst same
            simpa using finished
    · have stays : ((state.allocate c job).setPc c pc).calls other = state.calls other := by
        simp [different]
      rw [stays]
      exact ⟨facts.fresh, facts.joined, old⟩
  · intro j notEntered apart
    refine inv.outside j ?_ ?_
    · intro entered
      apply notEntered
      have other : j ≠ state.nextJob := by
        rintro rfl
        exact outside entered
      apply entered_setCall
      · exact fun _ kept => kept
      · simpa [Entered, other] using entered
    · intro other
      rcases eq_or_ne other c with rfl | different
      · exact notRegister j
      · simpa [different] using apart other
  · intro j
    rcases eq_or_ne j state.nextJob with rfl | other
    · rcases owned.untouched outside with ⟨out, absent, notDropped, _⟩
      simpa [out, absent, notDropped] using JobRow.idle
    · simpa [other] using inv.jobs j
  · intro t
    have facts := inv.routines t
    change RoutineRows _ _ _ _ (state.routines t)
    cases routine : state.routines t with
    | purgeDelete extra queues =>
        rw [routine] at facts
        intro id listed
        rcases facts id listed with ⟨below, stale, notFresh⟩
        refine ⟨below.trans (Nat.lt_succ_self _), stale, ?_⟩
        intro other
        rcases eq_or_ne other c with rfl | different
        · rcases place with rfl | ⟨rfl, _⟩
          · simpa using below.ne'
          · simp
        · simpa [different] using notFresh other
    | _ =>
        rw [routine] at facts
        exact facts

/-- The row of a job that waits is inserted. -/
theorem Stored.insertWaiting {j : JobId} (inv : Stored state) (owned : Ownership state)
    (pc : (state.calls c).pc = .insertWrite j) :
    Stored ((state.insertRow (state.heap j)).setPc c (.register j)) := by
  have joins : (state.calls c).pc.joins = some j := by rw [pc]; rfl
  have facts := (owned.calls c).joining j joins
  have same : (state.heap j).id = j := owned.ids j facts.1
  have outside := owned.joining_outside joins
  have alone : ∀ other ≠ c, (state.calls other).pc.joins ≠ some j := by
    intro other different theirs
    exact different (((owned.calls other).joining j theirs).2.1.symm.trans facts.2.1)
  have others : ∀ k ≠ j, rowStatus (insertJob state.rows (state.heap j)) k =
      rowStatus state.rows k := by
    intro k apart
    simp [rowStatus_insertJob, same, apart]
  refine ⟨inv.ids.insertJob (same.trans_lt facts.1), ?_, ?_, ?_, ?_⟩
  · intro other
    have theirs := inv.calls other
    rcases eq_or_ne other c with rfl | different
    · refine ⟨by simp, ?_, ?_⟩
      · intro k isRegister
        have this : j = k := by simpa using isRegister
        subst this
        simp [rowStatus_insertJob, same, facts.2.2.2.2.1]
      · intro k overflows
        rcases overflows with frame | inHand
        · exact theirs.overflow k (Or.inl (by simpa using frame))
        · simp [CallPc.overflows] at inHand
    · have apart : ∀ k, (state.calls other).pc.joins = some k → k ≠ j := by
        rintro k joining rfl
        exact alone other different joining
      have stays : ((state.insertRow (state.heap j)).setPc c (.register j)).calls other =
          state.calls other := by simp [different]
      rw [stays]
      refine ⟨?_, ?_, theirs.overflow⟩
      · intro k fresh
        have other' := apart k (by rw [fresh]; rfl)
        simpa [insertJob, same, other'] using theirs.fresh k fresh
      · intro k joined
        have other' := apart k (by rw [joined]; rfl)
        exact (others k other').trans (theirs.joined k joined)
  · intro k notEntered apart
    have different : k ≠ j := by
      rintro rfl
      exact apart c (by simp)
    have stale : rowActive state.rows k = false := by
      refine inv.outside k ?_ ?_
      · intro entered
        exact notEntered (entered_setCall (fun _ kept => kept) entered)
      · intro other
        rcases eq_or_ne other c with rfl | otherCall
        · simp [pc]
        · simpa [otherCall] using apart other
    simpa [rowActive, others k different] using stale
  · intro k
    rcases eq_or_ne k j with rfl | different
    · rcases owned.untouched outside with ⟨out, absent, notDropped, _⟩
      simpa [out, absent, notDropped] using JobRow.idle
    · exact (inv.jobs k).mono fun waiting => (others k different).trans waiting
  · intro t
    have facts := inv.routines t
    change RoutineRows _ _ _ _ (state.routines t)
    cases routine : state.routines t with
    | purgeDelete extra queues =>
        rw [routine] at facts
        intro id listed
        rcases facts id listed with ⟨below, stale, notFresh⟩
        have different : id ≠ j := by
          rintro rfl
          exact notFresh c pc
        refine ⟨below, by simpa [rowActive, others id different] using stale, ?_⟩
        intro other
        rcases eq_or_ne other c with rfl | otherCall
        · simp
        · simpa [otherCall] using notFresh other
    | _ =>
        rw [routine] at facts
        exact facts

/-- A call registers its waiter. -/
theorem Stored.register {j : JobId} (inv : Stored state) (owned : Ownership state)
    (pc : (state.calls c).pc = .register j) :
    Stored ((state.setRegistered j true).setCall c ((state.calls c).await j)) := by
  have joins : (state.calls c).pc.joins = some j := by rw [pc]; rfl
  have facts := (owned.calls c).joining j joins
  have outside := owned.joining_outside joins
  refine ⟨inv.ids, ?_, ?_, ?_, ?_⟩
  · intro other
    have theirs := inv.calls other
    rcases eq_or_ne other c with rfl | different
    · refine ⟨by simp, by simp, ?_⟩
      intro k overflows
      rcases overflows with frame | inHand
      · exact theirs.overflow k (Or.inl (by simpa using frame))
      · simp [CallPc.overflows] at inHand
    · simpa [different] using theirs
  · intro k notEntered apart
    have different : k ≠ j := by
      rintro rfl
      apply notEntered
      simp [Entered, facts.2.1]
    refine inv.outside k ?_ ?_
    · intro entered
      refine notEntered (entered_setCall ?_ entered)
      simp [facts.2.2.1]
    · intro other
      rcases eq_or_ne other c with rfl | otherCall
      · simpa [pc] using different.symm
      · simpa [otherCall] using apart other
  · intro k
    rcases eq_or_ne k j with rfl | different
    · rcases owned.untouched outside with ⟨_, absent, notDropped, _⟩
      simpa [absent, notDropped, facts.2.2.2.2.1, (inv.calls c).joined k pc] using JobRow.join
    · simpa [different] using inv.jobs k
  · intro t
    have theirs := inv.routines t
    have apart : ∀ head, (state.routines t).head = some head → head ≠ j := by
      rintro head inHand rfl
      exact outside (owned.jobs.heads t head inHand)
    change RoutineRows _ _ _ _ (state.routines t)
    cases routine : state.routines t with
    | dispatchMark queue head pick | dispatchSave queue head copied =>
        rw [routine] at theirs
        have different := apart head (by rw [routine]; rfl)
        simpa [RoutineRows, different] using theirs
    | purgeDelete extra queues =>
        rw [routine] at theirs
        intro id listed
        rcases theirs id listed with ⟨below, stale, notFresh⟩
        refine ⟨below, stale, ?_⟩
        intro other
        rcases eq_or_ne other c with rfl | otherCall
        · simp
        · simpa [otherCall] using notFresh other
    | _ => trivial

/-- A call that has no job on its way in goes on. -/
theorem Stored.moveCall {call : Call} (inv : Stored state)
    (notRegister : ∀ j, (state.calls c).pc ≠ .register j)
    (waiter : call.waiter = (state.calls c).waiter) (joins : call.pc.joins = none)
    (overflows : ∀ j, j ∈ call.frames ∨ call.pc.overflows = some j →
      j ∈ (state.calls c).frames ∨ (state.calls c).pc.overflows = some j) :
    Stored (state.setCall c call) := by
  refine inv.setCall ⟨?_, ?_, ?_⟩ (fun k isWaiter => waiter.trans isWaiter) notRegister ?_
  · intro j fresh
    simp [fresh, CallPc.joins] at joins
  · intro j joined
    simp [joined, CallPc.joins] at joins
  · intro j inHand
    exact (inv.calls c).overflow j (overflows j inHand)
  · intro j fresh
    simp [fresh, CallPc.joins] at joins

theorem Stored.setPc {pc : CallPc} (inv : Stored state)
    (notRegister : ∀ j, (state.calls c).pc ≠ .register j) (joins : pc.joins = none)
    (overflows : pc.overflows = none ∨ pc.overflows = (state.calls c).pc.overflows) :
    Stored (state.setPc c pc) := by
  refine inv.moveCall notRegister rfl joins ?_
  intro j inHand
  refine inHand.imp_right ?_
  intro here
  rcases overflows with none | same
  · simp [none] at here
  · exact same.symm.trans here

theorem Stored.answer {response : Response} (inv : Stored state)
    (notRegister : ∀ j, (state.calls c).pc ≠ .register j) :
    Stored (state.answer c response) := by
  refine inv.moveCall notRegister rfl rfl ?_
  intro j inHand
  exact inHand.imp_right (by simp [CallPc.overflows])

theorem overflowJob_finished {time : ℕ} {job : QueueJob} {result : Forwarded} :
    (overflowJob time job result).status.isActive = false := by
  simp only [overflowJob]
  split
  · rfl
  · split <;> rfl

theorem returnedJob_finished {time : ℕ} {job : QueueJob} {wrote : Bool} {result : Forwarded} :
    (returnedJob time job wrote result).status.isActive = false := by
  simp only [returnedJob]
  split
  · rfl
  · split <;> rfl

theorem Stored.handle {action : HandleStep} (inv : Stored state) (owned : Ownership state)
    (move : HandleMove limits state c action next) : Stored next := by
  cases move with
  | arrive pc =>
      exact inv.moveCall (by simp [pc]) rfl rfl fun j inHand =>
        inHand.imp_right (by simp [CallPc.overflows])
  | refused pc | full pc | notInserted pc | answerTimeout pc => exact inv.answer (by simp [pc])
  | entered pc =>
      refine Stored.setRoutine ?_ trivial
      exact inv.moveCall (by simp [pc]) rfl rfl fun j inHand =>
        inHand.imp_right (by simp [CallPc.overflows])
  | toOverflow pc | accepted pc | expire pc | notWaiting pc | returned pc =>
      exact inv.setPc (by simp [pc]) rfl (Or.inl rfl)
  | stillWaiting pc =>
      exact (inv.setPc (by simp [pc]) rfl (Or.inl rfl)).setRoutine trivial
  | receive pc =>
      refine inv.setPc ?_ rfl (Or.inl rfl)
      rcases pc with select | await
      · simp [select]
      · simp [await]
  | overflowSelect pc =>
      exact inv.allocate owned (by simp [pc]) (Or.inr ⟨rfl, rfl⟩)
  | insertSelect pc => exact inv.allocate owned (by simp [pc]) (Or.inl rfl)
  | @overflowInserted j pc =>
      have inHand : (state.calls c).pc.overflows = some j := by rw [pc]; rfl
      refine (inv.insertOverflow owned inHand).setPc (by simp [pc]) rfl (Or.inr ?_)
      simp [pc, CallPc.overflows]
  | overflowNotInserted pc | overflowDirect pc =>
      exact inv.setPc (by simp [pc]) rfl (Or.inr (by simp [pc, CallPc.overflows]))
  | @overflowNested j queue pc looked =>
      refine inv.moveCall (by simp [pc]) rfl rfl ?_
      intro k inHand
      simpa [pc, CallPc.overflows, or_comm, eq_comm] using inHand
  | @overflowForward j wrote result pc =>
      have inHand : (state.calls c).pc.overflows = some j := by rw [pc]; rfl
      have changed : Stored (state.setJob j (overflowJob state.clock (state.heap j) result)) :=
        inv.setJob owned (owned.overflowing_outside (Or.inr inHand)) overflowJob_finished
      refine changed.moveCall (by simp [pc]) ?_ rfl ?_
      · cases wrote <;> rfl
      · intro k here
        cases wrote <;> simpa [pc, CallPc.overflows] using here
  | @overflowSave j ok pc =>
      have inHand : (state.calls c).pc.overflows = some j := by rw [pc]; rfl
      have facts := (owned.calls c).overflowing j (Or.inr inHand)
      have same : (state.heap j).id = j := owned.ids j facts.1
      have stale : rowActive state.rows (state.heap j).id = false := by
        rw [same]
        exact inv.overflow_stale owned (Or.inr inHand)
      exact (inv.save stale ((inv.calls c).overflow j (Or.inr inHand))).setPc (by simp [pc]) rfl
        (Or.inl rfl)
  | inserted pc => exact inv.insertWaiting owned pc
  | register pc => exact (inv.register owned pc).setRoutine trivial
  | @unwound ok j outer pc frames =>
      have inFrames : j ∈ (state.calls c).frames := by simp [frames]
      have facts := (owned.calls c).overflowing j (Or.inl inFrames)
      have same : (state.heap j).id = j := owned.ids j facts.1
      have changed : Stored (state.setJob j (unwoundJob state.clock (state.heap j))) :=
        inv.setJob owned (owned.overflowing_outside (Or.inl inFrames)) rfl
      have stale : rowActive state.rows (unwoundJob state.clock (state.heap j)).id = false := by
        show rowActive state.rows (state.heap j).id = false
        rw [same]
        exact inv.overflow_stale owned (Or.inl inFrames)
      refine (changed.save stale rfl).moveCall (by simp [pc]) rfl ?_ ?_
      · simp [pc, CallPc.joins]
      · intro k here
        simp only [State.saveJob_calls, State.setJob_calls, Call.unnest_frames, Call.unnest_pc]
          at here ⊢
        exact here.imp_left fun inOuter => by simp [frames, inOuter]

theorem Stored.dispatch {t : Thread} {action : DispatchStep} (inv : Stored state)
    (consistent : Consistent state) (apart : rowsApart state (.dispatch t action) = true)
    (move : DispatchMove state t action next) : Stored next := by
  have here := inv.routines t
  have owned := consistent.owned
  have facts := consistent.slots.dispatchers t
  cases move with
  | found | missing | noWaiter | head | noStep | picked | retry => exact inv.setRoutine trivial
  | @checked queue head pick routine free waiting slot =>
      refine Stored.setRoutine ⟨inv.ids, inv.calls, inv.outside, inv.jobs, inv.routines⟩ ?_
      show state.registered head = true
      simpa [rowsApart, routine, waiting, slot.not_ge] using apart
  | @mark queue head pick routine =>
      rw [routine] at here facts
      have present : state.registered head = true := here
      have entered := owned.jobs.registered head present
      have notDropped := consistent.waiters.not_dropped present
      have own := inv.jobs head
      rw [present, facts.2.2.2.2.1, notDropped] at own
      refine Stored.setRoutine ?_ trivial
      refine inv.keep head owned entered rfl rfl rfl rfl rfl rfl ?_ ?_
      · intro k other
        simp [other]
      · have marked : JobRow head true (.dispatched t) .absent .running _ := own.mark
        simpa [present, notDropped, markedJob] using marked
  | @copy queue head routine =>
      rw [routine] at facts
      have entered := owned.jobs.heads t head (by rw [routine]; rfl)
      refine Stored.setRoutine ⟨inv.ids, inv.calls, inv.outside, inv.jobs, inv.routines⟩ ?_
      refine ⟨owned.ids head ((owned.calls _).waiting _ entered).1, ?_⟩
      intro present
      exact (inv.jobs head).serving present (by rw [facts.2.2]; rfl)
  | @save queue head copied ok routine =>
      rw [routine] at here facts
      have entered := owned.jobs.heads t head (by rw [routine]; rfl)
      have unsaved : (state.drops head).saved = false := by
        simpa [rowsApart, routine] using apart
      have waiting := (inv.jobs head).dispatched t facts.2 unsaved
      have running : state.registered head = true → (state.heap head).status = .running :=
        fun present => (inv.jobs head).serving present (by rw [facts.2]; rfl)
      refine Stored.setRoutine ?_ trivial
      refine inv.keepSaved head owned entered rfl rfl rfl rfl rfl rfl here.1 ?_ ?_ ?_
      · intro stale
        simp [rowActive, waiting, JobStatus.isActive] at stale
      · intro k other
        simp [other]
      · simpa using (inv.jobs head).serve running (Or.inl rfl)

theorem afterDrop_rows {registered : JobId → Bool} {rows : JobTable} {calls : CallId → Call}
    {bound : JobId} {after : AfterDrop} :
    RoutineRows registered rows calls bound (afterDrop limits after) := by
  cases after with
  | timeout => trivial
  | purge rest jobs bytes =>
      simp only [afterDrop]
      split <;> trivial

theorem Stored.purge {t : Thread} {action : PurgeStep} (inv : Stored state)
    (consistent : Consistent state) (move : PurgeMove limits state t action next) :
    Stored next := by
  have owned := consistent.owned
  cases move with
  | above | under | queues | surplusDone | deleteDone | oldest | nextDone | next =>
      exact inv.setRoutine trivial
  | notTaken => exact inv.setRoutine afterDrop_rows
  | aged =>
      refine Stored.setRoutine (inv.setRows inv.ids.deleteAged ?_ ?_ ?_) trivial
      · intro c k _ absent
        simp [deleteAged, absent]
      · exact fun k waiting => rowStatus_deleteAged waiting rfl
      · exact fun k stale => rowActive_deleteAged stale
  | @surplus queueId queues routine =>
      refine inv.setRoutine ?_
      intro id listed
      rcases exists_of_mem_surplus inv.ids listed with ⟨row, found, finished⟩
      refine ⟨(inv.ids id row found).2, by simp [rowActive, rowStatus, found, finished], ?_⟩
      intro c fresh
      rw [(inv.calls c).fresh id fresh] at found
      cases found
  | @delete job extra queues routine =>
      have here := inv.routines t
      rw [routine] at here
      have gone := here job (List.mem_cons_self ..)
      have stays : ∀ k, rowActive state.rows k = false →
          rowActive (deleteJob state.rows job) k = false := by
        intro k stale
        rcases eq_or_ne k job with rfl | other
        · simp [rowActive, rowStatus_deleteJob]
        · simpa [rowActive, rowStatus_deleteJob, other] using stale
      refine Stored.setRoutine (inv.setRows inv.ids.deleteJob ?_ ?_ stays) ?_
      · intro c k _ absent
        rcases eq_or_ne k job with rfl | other
        · simp [deleteJob]
        · simpa [deleteJob, other] using absent
      · intro k waiting
        have other : k ≠ job := by
          rintro rfl
          simpa [rowActive, waiting, JobStatus.isActive] using gone.2.1
        simpa [rowStatus_deleteJob, other] using waiting
      · intro id listed
        exact (here id (List.mem_cons_of_mem _ listed)).mono (stays id)
  | @taken j reason after routine free present =>
      have entered := owned.jobs.registered j present
      have own := inv.jobs j
      rw [consistent.waiters.not_dropped present] at own
      refine Stored.setRoutine ?_ trivial
      refine inv.goOn j owned entered rfl rfl rfl rfl ?_ inv.ids (fun _ absent => absent) ?_ ?_ id ?_
      · intro k other
        simp [other]
      · exact fun _ => present
      · intro t' queue pick marks
        exact (consistent.slots.not_marking free marks).elim
      · simpa using own.take
  | @dropMark j after reason routine pc =>
      have entered := owned.jobs.drops j (by simp [pc])
      have out := consistent.waiters.dropped j (by simp [pc])
      have own := inv.jobs j
      rw [out, pc] at own
      refine inv.keep j owned entered rfl rfl rfl rfl rfl rfl ?_ ?_
      · intro k other
        simp [other]
      · simpa [out, droppedJob] using own.dropMark
  | @dropCopy j after routine pc =>
      have entered := owned.jobs.drops j (by simp [pc])
      have out := consistent.waiters.dropped j (by simp [pc])
      have own := inv.jobs j
      rw [out, pc] at own
      refine inv.keep j owned entered rfl rfl rfl rfl rfl rfl ?_ ?_
      · intro k other
        simp [other]
      · simpa [out] using own.dropCopy_ (owned.ids j ((owned.calls _).waiting _ entered).1)
  | @dropSave j after copied ok routine pc =>
      have entered := owned.jobs.drops j (by simp [pc])
      have out := consistent.waiters.dropped j (by simp [pc])
      have own := inv.jobs j
      rw [out, pc] at own
      have copy := own.dropCopy copied rfl
      refine inv.keepSaved j owned entered rfl rfl rfl rfl rfl rfl copy.1 (fun _ => copy.2) ?_ ?_
      · intro k other
        simp [other]
      · simpa [out] using own.dropSaved rfl rfl
  | @dropComplete j after routine pc =>
      have entered := owned.jobs.drops j (by simp [pc])
      have out := consistent.waiters.dropped j (by simp [pc])
      have own := inv.jobs j
      rw [out, pc] at own
      refine Stored.setRoutine ?_ afterDrop_rows
      refine inv.keep j owned entered rfl rfl rfl rfl rfl rfl ?_ ?_
      · intro k other
        simp [other]
      · simpa [out] using own.dropSaved rfl rfl

theorem Stored.run {j : JobId} {action : RunStep} (inv : Stored state)
    (consistent : Consistent state) (move : RunMove state j action next) : Stored next := by
  have owned := consistent.owned
  have own := inv.jobs j
  have entered : state.runs j ≠ .absent → Entered state.calls state.writer j := owned.jobs.runs j
  have sends : ∀ response, state.runs j ≠ .absent →
      Stored (state.send (state.writer j) response) := by
    intro response present
    refine inv.moveCall ?_ rfl ?_ fun _ inHand => inHand
    · intro k pc
      have waiter := (owned.calls _).waiter_eq_none pc rfl rfl
      rw [entered present] at waiter
      cases waiter
    · rcases ((owned.calls _).waiting j (entered present)).2.2.2 with waits | leaves
      · cases pc : (state.calls (state.writer j)).pc <;> simp_all [CallPc.waits, CallPc.joins]
      · cases pc : (state.calls (state.writer j)).pc <;> simp_all [CallPc.leaves, CallPc.joins]
  have others : ∀ (runs : JobId → RunPc) (pc : RunPc), ∀ k ≠ j,
      Function.update runs j pc k = runs k := by
    intro runs pc k other
    simp [other]
  cases move with
  | start pc =>
      refine inv.keep j owned (entered (by simp [pc])) rfl rfl rfl rfl rfl rfl ?_ ?_
      · exact fun k other => ⟨others _ _ k other, rfl, rfl⟩
      · rw [pc] at own
        simpa using own.serve (fun present => own.serving present rfl) (Or.inr ⟨false, rfl⟩)
  | write pc =>
      refine (sends .forward (by simp [pc])).keep j owned.send ?_ rfl rfl rfl rfl rfl rfl ?_ ?_
      · exact entered_setCall (fun _ kept => kept) (entered (by simp [pc]))
      · exact fun k other => ⟨others _ _ k other, rfl, rfl⟩
      · rw [pc] at own
        simpa using own.serve (fun present => own.serving present rfl) (Or.inr ⟨true, rfl⟩)
  | @failed result message pc | @returned result wrote pc =>
      refine inv.keep j owned (entered (by simp [pc])) rfl rfl rfl rfl rfl rfl ?_ ?_
      · intro k other
        simp [other]
      · simpa using own.finish rfl (by simp) returnedJob_finished
  | @fail message pc =>
      refine (sends (.error 502 message) (by simp [pc])).keep j owned.send ?_ rfl rfl rfl rfl rfl
        rfl ?_ ?_
      · exact entered_setCall (fun _ kept => kept) (entered (by simp [pc]))
      · exact fun k other => ⟨others _ _ k other, rfl, rfl⟩
      · simpa using own.finish rfl (by simp) (own.returned (by simp [pc, RunPc.returned]))
  | release pc free | noRelease pc free =>
      refine inv.goOn j owned (entered (by simp [pc])) rfl rfl rfl rfl ?_ inv.ids
        (fun _ absent => absent) ?_ ?_ id ?_
      · intro k other
        simp [other]
      · simp
      · intro t queue pick marks
        exact (consistent.slots.not_marking free marks).elim
      · simpa using own.finish rfl (by simp) (own.returned (by simp [pc, RunPc.returned]))
  | finishCopy pc =>
      have below := ((owned.calls _).waiting j (entered (by simp [pc]))).1
      refine inv.keep j owned (entered (by simp [pc])) rfl rfl rfl rfl rfl rfl ?_ ?_
      · exact fun k other => ⟨others _ _ k other, rfl, rfl⟩
      · rw [pc] at own
        simpa using own.finishCopy (owned.ids j below)
  | @finishSave copied ok pc =>
      rw [pc] at own
      have copy := own.runCopy copied rfl
      refine inv.keepSaved j owned (entered (by simp [pc])) rfl rfl rfl rfl rfl rfl copy.1
        (fun _ => copy.2) ?_ ?_
      · exact fun k other => ⟨others _ _ k other, rfl, rfl⟩
      · simpa using own.finish rfl (by simp) (own.returned rfl)
  | finishComplete pc =>
      refine Stored.setRoutine ?_ trivial
      refine inv.keep j owned (entered (by simp [pc])) rfl rfl rfl rfl rfl rfl ?_ ?_
      · exact fun k other => ⟨others _ _ k other, rfl, rfl⟩
      · simpa using own.finish rfl (by simp) (own.returned (by simp [pc, RunPc.returned]))

/-- Every step that keeps dispatchers and `dropWaiter` apart keeps the rows in order. -/
theorem Stored.step {action : Action} (inv : Stored state) (consistent : Consistent state)
    (apart : rowsApart state action = true) (fires : step limits state action = some next) :
    Stored next := by
  cases action with
  | advance seconds | editQueues tables =>
      cases fires
      exact ⟨inv.ids, inv.calls, inv.outside, inv.jobs, inv.routines⟩
  | handle c action => exact inv.handle consistent.owned (handle_moves fires)
  | dispatch t action => exact inv.dispatch consistent apart (dispatch_moves fires)
  | purge t action => exact inv.purge consistent (purge_moves fires)
  | run j action => exact inv.run consistent (run_moves fires)
  | loop action =>
      cases loop_moves fires with
      | tick | next =>
          exact Stored.setRoutine ⟨inv.ids, inv.calls, inv.outside, inv.jobs, inv.routines⟩ trivial
      | list | done => exact ⟨inv.ids, inv.calls, inv.outside, inv.jobs, inv.routines⟩

theorem stored_start {tables : QueueTables} {history : List QueueJob} {clock : ℕ} :
    Stored (start tables history clock) := by
  have stale : ∀ row : QueueJob, (resetStale clock row).status.isActive = false := by
    intro row
    simp only [resetStale]
    split
    · rfl
    · rename_i finished
      simpa using finished
  refine ⟨?_, ?_, ?_, ?_, fun _ => trivial⟩
  · intro id row found
    rcases Option.map_eq_some_iff.mp found with ⟨old, listed, rfl⟩
    rcases List.getElem?_eq_some_iff.mp listed with ⟨below, _⟩
    refine ⟨?_, below⟩
    simp only [resetStale]
    split <;> rfl
  · intro c
    constructor <;> simp [start, Call.idle, CallPc.overflows]
  · intro j _ _
    simp only [start, rowActive, rowStatus]
    cases history[j]? with
    | none => rfl
    | some row => simpa using stale _
  · intro j
    exact JobRow.idle

end Steps

end MikroLLM.Queue
