import MikroLLM.Queue.Engine

/-!
# The backlog

The job table and the map of waiters between two operations of the engine, each
of which runs to its end before the next one starts. A job that waits has a
waiter; and within one queue the numbers of the waiting jobs are in the order of
their creation, whatever rows were purged in between.
-/

namespace MikroLLM.Queue

open Domain Store Library

/-- The rows that wait. -/
def waitingRows (bound : JobId) (rows : JobTable) : List QueueJob :=
  (scan bound rows).filter (·.status = .waiting)

theorem mem_waitingRows {bound : JobId} {rows : JobTable} {row : QueueJob}
    (ids : RowIds rows bound) :
    row ∈ waitingRows bound rows ↔ rows row.id = some row ∧ row.status = .waiting := by
  rw [waitingRows, List.mem_filter, mem_scan ids, decide_eq_true_eq]

/-- The table `queue_jobs`, the waiters with their jobs, and the time. -/
structure Backlog where
  rows : JobTable
  waiters : JobId → Option QueueJob
  nextJob : JobId
  clock : ℕ
  ids : RowIds rows nextJob
  named : ∀ id job, waiters id = some job → job.id = id
  registered : ∀ row ∈ waitingRows nextJob rows, waiters row.id = some row
  past : ∀ row ∈ waitingRows nextJob rows, row.createdAt ≤ clock
  ordered : ∀ first ∈ waitingRows nextJob rows, ∀ second ∈ waitingRows nextJob rows,
    first.queueId = second.queueId → first.seq ≤ second.seq → first.createdAt ≤ second.createdAt

namespace Backlog

/-- The rows that wait. -/
def waiting (backlog : Backlog) : List QueueJob :=
  waitingRows backlog.nextJob backlog.rows

/-- `WaitingStats`. -/
def stats (backlog : Backlog) : ℕ × ℕ :=
  waitingStats backlog.nextJob backlog.rows

/-- Nothing is stored, and nobody waits. -/
def empty : Backlog where
  rows := fun _ => none
  waiters := fun _ => none
  nextJob := 0
  clock := 0
  ids := by simp [RowIds]
  named := by simp
  registered := by simp [waitingRows, scan]
  past := by simp [waitingRows, scan]
  ordered := by simp [waitingRows, scan]

/-- Other rows and waiters, where no job starts to wait. -/
def replace (backlog : Backlog) (rows : JobTable) (waiters : JobId → Option QueueJob)
    (ids : RowIds rows backlog.nextJob) (named : ∀ id job, waiters id = some job → job.id = id)
    (fewer : ∀ row ∈ waitingRows backlog.nextJob rows,
      row ∈ backlog.waiting ∧ waiters row.id = backlog.waiters row.id) : Backlog where
  rows := rows
  waiters := waiters
  nextJob := backlog.nextJob
  clock := backlog.clock
  ids := ids
  named := named
  registered row listed := by
    rcases fewer row listed with ⟨before, same⟩
    rw [same]
    exact backlog.registered row before
  past row listed := backlog.past row (fewer row listed).1
  ordered first firstListed second secondListed :=
    backlog.ordered first (fewer first firstListed).1 second (fewer second secondListed).1

/-- The job that `newJob` and `InsertQueueJob` make of the values of a request. -/
def newJob (backlog : Backlog) (values : QueueJob) : QueueJob :=
  { values with
    id := backlog.nextJob
    seq := nextSeq backlog.nextJob backlog.rows values.queueId
    createdAt := backlog.clock }

theorem mem_waiting_insertJob {backlog : Backlog} {values row : QueueJob}
    (listed : row ∈ waitingRows (backlog.nextJob + 1)
      (insertJob backlog.rows (backlog.newJob values))) :
    row = backlog.newJob values ∨ (row ∈ backlog.waiting ∧ row.id ≠ backlog.nextJob) := by
  have wide : RowIds backlog.rows (backlog.nextJob + 1) := backlog.ids.mono (Nat.le_succ _)
  rw [mem_waitingRows (wide.insertJob (Nat.lt_succ_self _))] at listed
  rcases listed with ⟨found, waits⟩
  by_cases isNew : row.id = backlog.nextJob
  · left
    rw [isNew] at found
    simpa [insertJob, newJob] using found.symm
  · right
    refine ⟨?_, isNew⟩
    rw [waiting, mem_waitingRows backlog.ids]
    exact ⟨by simpa [insertJob, newJob, isNew] using found, waits⟩

/-- `InsertQueueJob`, and the waiter of a job that waits. -/
def insert (backlog : Backlog) (values : QueueJob) : Backlog where
  rows := insertJob backlog.rows (backlog.newJob values)
  waiters :=
    if values.status = .waiting then
      Function.update backlog.waiters backlog.nextJob (some (backlog.newJob values))
    else backlog.waiters
  nextJob := backlog.nextJob + 1
  clock := backlog.clock
  ids := (backlog.ids.mono (Nat.le_succ _)).insertJob (Nat.lt_succ_self _)
  named id job isJob := by
    split at isJob
    · rcases eq_or_ne id backlog.nextJob with rfl | other
      · rw [Function.update_self, Option.some.injEq] at isJob
        rw [← isJob, newJob]
      · rw [Function.update_of_ne other] at isJob
        exact backlog.named id job isJob
    · exact backlog.named id job isJob
  registered row listed := by
    have wide : RowIds backlog.rows (backlog.nextJob + 1) := backlog.ids.mono (Nat.le_succ _)
    have waits := ((mem_waitingRows (wide.insertJob (Nat.lt_succ_self _))).mp listed).2
    rcases mem_waiting_insertJob listed with rfl | ⟨before, other⟩
    · have sameStatus : values.status = .waiting := waits
      simp [sameStatus, newJob]
    · split
      · rw [Function.update_of_ne other]
        exact backlog.registered row before
      · exact backlog.registered row before
  past row listed := by
    rcases mem_waiting_insertJob listed with rfl | ⟨before, _⟩
    · exact le_rfl
    · exact backlog.past row before
  ordered first firstListed second secondListed sameQueue le := by
    rcases mem_waiting_insertJob secondListed with rfl | ⟨secondBefore, _⟩
    · rcases mem_waiting_insertJob firstListed with rfl | ⟨firstBefore, _⟩
      · exact le_rfl
      · exact backlog.past first firstBefore
    · rcases mem_waiting_insertJob firstListed with rfl | ⟨firstBefore, _⟩
      · -- the new job has the largest number of its queue
        have found := ((mem_waitingRows backlog.ids).mp secondBefore).1
        have below := lt_nextSeq backlog.ids found
        rw [← sameQueue] at below
        exact absurd le (Nat.not_le.mpr below)
      · exact backlog.ordered first firstBefore second secondBefore sameQueue le

theorem mem_waiting_updateJob {backlog : Backlog} {job row : QueueJob}
    (leaves : job.status ≠ .waiting)
    (listed : row ∈ waitingRows backlog.nextJob (updateJob backlog.rows job)) :
    row ∈ backlog.waiting ∧ row.id ≠ job.id := by
  rw [mem_waitingRows backlog.ids.updateJob] at listed
  rcases listed with ⟨found, waits⟩
  have other : row.id ≠ job.id := by
    intro same
    rw [same] at found
    simp only [updateJob, Function.update_self, Option.map_eq_some_iff] at found
    rcases found with ⟨before, _, rfl⟩
    exact leaves waits
  refine ⟨?_, other⟩
  rw [waiting, mem_waitingRows backlog.ids]
  exact ⟨by simpa [updateJob, other] using found, waits⟩

/-- `UpdateQueueJob` for a job that no longer waits; its waiter may stay while it runs. -/
def save (backlog : Backlog) (job : QueueJob) (leaves : job.status ≠ .waiting) (stays : Bool) :
    Backlog :=
  backlog.replace (updateJob backlog.rows job)
    (Function.update backlog.waiters job.id (if stays then some job else none))
    backlog.ids.updateJob
    (fun id other isOther => by
      rcases eq_or_ne id job.id with rfl | differs
      · cases stays <;> simp_all
      · rw [Function.update_of_ne differs] at isOther
        exact backlog.named id other isOther)
    fun row listed => by
      rcases mem_waiting_updateJob leaves listed with ⟨before, other⟩
      exact ⟨before, Function.update_of_ne other _ _⟩

/-- Time passes. -/
def advance (backlog : Backlog) (seconds : ℕ) : Backlog :=
  { backlog with
    clock := backlog.clock + seconds
    past := fun row listed => (backlog.past row listed).trans (Nat.le_add_right _ _) }

/-- The process ends and a new one starts, with `ResetStaleQueueJobs`. -/
def restart (backlog : Backlog) : Backlog :=
  backlog.replace (fun id => (backlog.rows id).map (resetStale backlog.clock)) (fun _ => none)
    (fun id row found => by
      rcases Option.map_eq_some_iff.mp found with ⟨before, stored, rfl⟩
      refine ⟨?_, (backlog.ids id before stored).2⟩
      rw [← (backlog.ids id before stored).1, resetStale]
      split <;> rfl)
    (by simp)
    fun row listed => by
      exfalso
      have waits := (List.mem_filter.mp listed).2
      rw [decide_eq_true_eq] at waits
      rcases List.mem_filterMap.mp (List.mem_filter.mp listed).1 with ⟨id, _, found⟩
      rcases Option.map_eq_some_iff.mp found with ⟨before, _, rfl⟩
      rw [resetStale] at waits
      split at waits
      · cases waits
      · rename_i stale
        simp [JobStatus.isActive, waits] at stale

/-- Rows that are deleted: those left are as they were. -/
theorem mem_waiting_of_kept {backlog : Backlog} {rows : JobTable} {row : QueueJob}
    (ids : RowIds rows backlog.nextJob)
    (kept : ∀ id row, rows id = some row → backlog.rows id = some row)
    (listed : row ∈ waitingRows backlog.nextJob rows) : row ∈ backlog.waiting := by
  rw [mem_waitingRows ids] at listed
  rw [waiting, mem_waitingRows backlog.ids]
  exact ⟨kept _ _ listed.1, listed.2⟩

/-- Delete rows. -/
def keepOnly (backlog : Backlog) (rows : JobTable)
    (kept : ∀ id row, rows id = some row → backlog.rows id = some row) : Backlog :=
  have ids : RowIds rows backlog.nextJob := fun id row found => backlog.ids id row (kept id row found)
  backlog.replace rows backlog.waiters ids backlog.named fun _ listed => ⟨mem_waiting_of_kept ids kept listed, rfl⟩

end Backlog

end MikroLLM.Queue
