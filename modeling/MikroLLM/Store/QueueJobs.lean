import Mathlib.Algebra.GroupWithZero.Nat
import Mathlib.Data.List.Dedup
import Mathlib.Data.List.Sort
import Mathlib.Logic.Function.Basic
import MikroLLM.Domain.Queue

/-!
# The job table

Table `queue_jobs` by its primary key, and the statements on it. Identifiers are
handed out in order, so every row has one below the next free identifier, and a
query walks over the identifiers below that bound.
-/

namespace MikroLLM.Store

open Domain

abbrev JobTable := JobId → Option QueueJob

/-- All rows. -/
def scan (bound : JobId) (rows : JobTable) : List QueueJob :=
  (List.range bound).filterMap rows

/-- The first statement of `InsertQueueJob`: `COALESCE(MAX(seq),0)+1` of one queue. -/
def nextSeq (bound : JobId) (rows : JobTable) (queueId : QueueId) : ℕ :=
  ((scan bound rows).filter (·.queueId = queueId)).foldl (fun top row => max top row.seq) 0 + 1

/-- The second statement of `InsertQueueJob`. -/
def insertJob (rows : JobTable) (job : QueueJob) : JobTable :=
  Function.update rows job.id (some job)

/-- The columns that `UpdateQueueJob` sets. -/
def overwriteJob (row job : QueueJob) : QueueJob :=
  { row with
    status := job.status
    assignedModel := job.assignedModel
    assignedBackend := job.assignedBackend
    provider := job.provider
    error := job.error
    bytes := job.bytes
    finishedAt := job.finishedAt }

/-- `UpdateQueueJob`; it changes nothing when the row is gone. -/
def updateJob (rows : JobTable) (job : QueueJob) : JobTable :=
  Function.update rows job.id ((rows job.id).map fun row => overwriteJob row job)

/-- `WaitingStats`: how many jobs wait or run, and the sum of their bytes. -/
def waitingStats (bound : JobId) (rows : JobTable) : ℕ × ℕ :=
  let active := (scan bound rows).filter (·.status.isActive)
  (active.length, (active.map (·.bytes)).sum)

/-- `OldestWaiting`. -/
def oldestWaiting (bound : JobId) (rows : JobTable) (limit : ℕ) : List QueueJob :=
  (((scan bound rows).filter (·.status = .waiting)).insertionSort (·.seq ≤ ·.seq)).take limit

/-- The first statement of `PurgeFinishedQueueJobs`: finished rows before the cut are deleted. -/
def deleteAged (rows : JobTable) (cut : ℕ) : JobTable :=
  fun id => (rows id).filter fun row => row.status.isActive || !(row.finishedAt.any (· < cut))

/-- The queues that have a row. -/
def distinctQueues (bound : JobId) (rows : JobTable) : List QueueId :=
  ((scan bound rows).map (·.queueId)).dedup

/-- The finished rows of one queue beyond the newest `keep`, which is at least eight. -/
def surplus (bound : JobId) (rows : JobTable) (keep : ℕ) (queueId : QueueId) : List JobId :=
  ((((scan bound rows).filter fun row => row.queueId = queueId && !row.status.isActive).insertionSort
    (·.seq ≥ ·.seq)).drop (max keep 8)).map (·.id)

/-- Delete one row. -/
def deleteJob (rows : JobTable) (id : JobId) : JobTable :=
  Function.update rows id none

/-- The status of a row. -/
def rowStatus (rows : JobTable) (id : JobId) : Option JobStatus :=
  (rows id).map (·.status)

/-- There is a row and it waits or runs. -/
def rowActive (rows : JobTable) (id : JobId) : Bool :=
  (rowStatus rows id).any (·.isActive)

/-- Every row stands under its identifier, which is below the next free one. -/
def RowIds (rows : JobTable) (bound : JobId) : Prop :=
  ∀ id row, rows id = some row → row.id = id ∧ id < bound

section Rows

variable {rows : JobTable} {job : QueueJob} {bound id key cut : ℕ} {status : JobStatus}

theorem rowActive_of_rowStatus (stored : rowStatus rows id = some status) :
    rowActive rows id = status.isActive := by
  simp [rowActive, stored]

theorem rowStatus_insertJob :
    rowStatus (insertJob rows job) id =
      if id = job.id then some job.status else rowStatus rows id := by
  simp only [rowStatus, insertJob, Function.update_apply]
  split <;> simp

theorem rowStatus_updateJob :
    rowStatus (updateJob rows job) id =
      if id = job.id then (rowStatus rows id).map fun _ => job.status else rowStatus rows id := by
  simp only [rowStatus, updateJob, Function.update_apply]
  split
  · rename_i same
    subst same
    cases rows job.id <;> rfl
  · rfl

theorem rowStatus_deleteJob :
    rowStatus (deleteJob rows key) id = if id = key then none else rowStatus rows id := by
  simp only [rowStatus, deleteJob, Function.update_apply]
  split <;> simp

/-- The purge by age keeps the rows that wait or run. -/
theorem rowStatus_deleteAged (stored : rowStatus rows id = some status)
    (active : status.isActive = true) : rowStatus (deleteAged rows cut) id = some status := by
  simp only [rowStatus, deleteAged, Option.map_eq_some_iff] at stored ⊢
  rcases stored with ⟨row, found, rfl⟩
  exact ⟨row, by simp [found, active], rfl⟩

theorem rowActive_deleteAged (stale : rowActive rows id = false) :
    rowActive (deleteAged rows cut) id = false := by
  simp only [rowActive, rowStatus, deleteAged] at stale ⊢
  cases found : rows id with
  | none => simp
  | some row => cases kept : Option.filter _ (some row) <;> simp_all [Option.filter]

theorem RowIds.insertJob (ids : RowIds rows bound) (below : job.id < bound) :
    RowIds (insertJob rows job) bound := by
  intro id row found
  rcases eq_or_ne id job.id with rfl | other
  · simp only [Store.insertJob, Function.update_self, Option.some.injEq] at found
    exact ⟨by rw [found], below⟩
  · exact ids id row (by simpa [Store.insertJob, other] using found)

theorem RowIds.updateJob (ids : RowIds rows bound) : RowIds (updateJob rows job) bound := by
  intro id row found
  rcases eq_or_ne id job.id with rfl | other
  · simp only [Store.updateJob, Function.update_self, Option.map_eq_some_iff] at found
    rcases found with ⟨before, stored, rfl⟩
    exact ids job.id before stored
  · exact ids id row (by simpa [Store.updateJob, other] using found)

theorem RowIds.deleteAged (ids : RowIds rows bound) : RowIds (deleteAged rows cut) bound := by
  intro id row found
  exact ids id row (Option.filter_eq_some_iff.mp found).1

theorem RowIds.deleteJob (ids : RowIds rows bound) : RowIds (deleteJob rows key) bound := by
  intro id row found
  rcases eq_or_ne id key with rfl | other
  · simp [Store.deleteJob] at found
  · exact ids id row (by simpa [Store.deleteJob, other] using found)

theorem RowIds.mono {more : ℕ} (ids : RowIds rows bound) (grows : bound ≤ more) :
    RowIds rows more :=
  fun id row found => ⟨(ids id row found).1, (ids id row found).2.trans_le grows⟩

theorem mem_scan {row : QueueJob} (ids : RowIds rows bound) :
    row ∈ scan bound rows ↔ rows row.id = some row := by
  simp only [scan, List.mem_filterMap, List.mem_range]
  constructor
  · rintro ⟨id, _, found⟩
    rwa [(ids id row found).1]
  · intro found
    exact ⟨row.id, (ids row.id row found).2, found⟩

/-- The next sequence number of a queue is above that of each of its rows. -/
theorem lt_nextSeq {row : QueueJob} (ids : RowIds rows bound) (found : rows id = some row) :
    row.seq < nextSeq bound rows row.queueId := by
  have top : ∀ (listed : List QueueJob) (start : ℕ),
      start ≤ listed.foldl (fun top row => max top row.seq) start ∧
        ∀ row ∈ listed, row.seq ≤ listed.foldl (fun top row => max top row.seq) start := by
    intro listed
    induction listed with
    | nil => simp
    | cons first rest ih =>
        intro start
        rcases ih (max start first.seq) with ⟨fromStart, fromRest⟩
        rw [List.foldl_cons, List.forall_mem_cons]
        exact ⟨(le_max_left _ _).trans fromStart, (le_max_right _ _).trans fromStart, fromRest⟩
  rw [nextSeq, Nat.lt_succ_iff]
  apply (top _ 0).2
  rw [List.mem_filter, mem_scan ids, (ids id row found).1]
  exact ⟨found, by simp⟩

/-- The next sequence number of a queue is no larger than needed. -/
theorem nextSeq_le {queueId next : ℕ} (positive : 0 < next)
    (above : ∀ row ∈ scan bound rows, row.queueId = queueId → row.seq < next) :
    nextSeq bound rows queueId ≤ next := by
  have top : ∀ (listed : List QueueJob) (start : ℕ), start < next →
      (∀ row ∈ listed, row.seq < next) →
        listed.foldl (fun top row => max top row.seq) start < next := by
    intro listed
    induction listed with
    | nil => exact fun start small _ => small
    | cons first rest ih =>
        intro start small below
        rw [List.forall_mem_cons] at below
        exact ih _ (max_lt small below.1) below.2
  rw [nextSeq, Nat.succ_le_iff]
  apply top _ 0 positive
  intro row listed
  rw [List.mem_filter, decide_eq_true_eq] at listed
  exact above row listed.1 listed.2

/-- The next sequence number does not fall when every row is kept with its queue and number. -/
theorem nextSeq_mono {rows' : JobTable} {bound' queueId : ℕ} (ids : RowIds rows bound)
    (ids' : RowIds rows' bound') (kept : ∀ id row, rows id = some row →
      ∃ row', rows' id = some row' ∧ row'.queueId = row.queueId ∧ row'.seq = row.seq) :
    nextSeq bound rows queueId ≤ nextSeq bound' rows' queueId := by
  apply nextSeq_le (Nat.succ_pos _)
  intro row listed queue
  rw [mem_scan ids] at listed
  rcases kept row.id row listed with ⟨row', found, sameQueue, sameSeq⟩
  have below := lt_nextSeq ids' found
  rwa [sameSeq, sameQueue, queue] at below

theorem nextSeq_updateJob {queueId : ℕ} (ids : RowIds rows bound) :
    nextSeq bound rows queueId ≤ nextSeq bound (updateJob rows job) queueId := by
  apply nextSeq_mono ids ids.updateJob
  intro id row found
  rcases eq_or_ne id job.id with rfl | other
  · exact ⟨overwriteJob row job, by simp [updateJob, found], rfl, rfl⟩
  · exact ⟨row, by simpa [updateJob, other] using found, rfl, rfl⟩

theorem nextSeq_insertJob {queueId : ℕ} (ids : RowIds rows bound) (below : job.id < bound)
    (fresh : rows job.id = none) :
    nextSeq bound rows queueId ≤ nextSeq bound (insertJob rows job) queueId := by
  apply nextSeq_mono ids (ids.insertJob below)
  intro id row found
  have other : id ≠ job.id := by
    rintro rfl
    rw [fresh] at found
    cases found
  exact ⟨row, by simpa [insertJob, other] using found, rfl, rfl⟩

theorem waitingStats_eq_zero (ids : RowIds rows bound)
    (stale : ∀ id, rowActive rows id = false) : waitingStats bound rows = (0, 0) := by
  have none : (scan bound rows).filter (·.status.isActive) = [] := by
    rw [List.filter_eq_nil_iff]
    intro row listed
    have found := (mem_scan ids).mp listed
    simpa [rowActive, rowStatus, found] using stale row.id
  simp [waitingStats, none]

/-- The rows that the purge by count deletes exist and have finished. -/
theorem exists_of_mem_surplus {keep queueId : ℕ} (ids : RowIds rows bound)
    (listed : id ∈ surplus bound rows keep queueId) :
    ∃ row, rows id = some row ∧ row.status.isActive = false := by
  rcases List.mem_map.mp listed with ⟨row, kept, rfl⟩
  have sorted := List.mem_of_mem_drop kept
  rw [List.mem_insertionSort, List.mem_filter, mem_scan ids] at sorted
  rcases sorted with ⟨found, finished⟩
  simp only [Bool.and_eq_true, Bool.not_eq_true', decide_eq_true_eq] at finished
  exact ⟨row, found, finished.2⟩

end Rows

end MikroLLM.Store
