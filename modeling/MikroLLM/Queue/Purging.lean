import Mathlib.Data.List.Perm.Lattice
import MikroLLM.Library.OrderBy
import MikroLLM.Queue.Backlog

/-!
# What the purge drops

At the limits `purgeIfNeeded` drops waiting jobs in the order of their numbers,
at most eight at a time. The numbers count within one queue, so between two
queues they say nothing about age.
-/

namespace MikroLLM.Queue

open Domain Store Library

/-- Both totals are below the limits. -/
def Limits.Below (limits : Limits) (stats : ℕ × ℕ) : Prop :=
  stats.1 < limits.maxJobs ∧ stats.2 < limits.maxBytes

instance (limits : Limits) (stats : ℕ × ℕ) : Decidable (limits.Below stats) :=
  inferInstanceAs (Decidable (_ ∧ _))

/-- How many jobs must go, in this order, until both totals are below the limits. -/
def due (limits : Limits) : ℤ → ℤ → List QueueJob → ℕ
  | _, _, [] => 0
  | jobs, bytes, job :: rest =>
      if jobs - 1 < limits.maxJobs ∧ bytes - job.bytes < limits.maxBytes then 1
      else due limits (jobs - 1) (bytes - job.bytes) rest + 1

namespace Backlog

/-- `Engine.dropWaiter`. -/
def dropWaiter (backlog : Backlog) (id : JobId) (reason : String) : Backlog :=
  match backlog.waiters id with
  | none => backlog
  | some job => backlog.save (droppedJob backlog.clock reason job) (by simp [droppedJob]) false

/-- The loop of `purgeIfNeeded`. -/
def dropLoop (limits : Limits) : Backlog → List QueueJob → ℤ → ℤ → Backlog
  | backlog, [], _, _ => backlog
  | backlog, job :: rest, jobs, bytes =>
      let dropped := backlog.dropWaiter job.id "queue size limit"
      if jobs - 1 < limits.maxJobs ∧ bytes - job.bytes < limits.maxBytes then dropped
      else dropLoop limits dropped rest (jobs - 1) (bytes - job.bytes)

/-- The rows without the finished ones beyond the newest of each of these queues. -/
def withoutSurplus (bound : JobId) (keep : ℕ) (rows : JobTable) (queues : List QueueId) :
    JobTable :=
  queues.foldl (fun rows queueId => (surplus bound rows keep queueId).foldl deleteJob rows) rows

/-- The rows that `PurgeFinishedQueueJobs` leaves. -/
def finishedPurged (bound : JobId) (rows : JobTable) (keep cut : ℕ) : JobTable :=
  let aged := deleteAged rows cut
  withoutSurplus bound keep aged (distinctQueues bound aged)

theorem kept_deleteJobs {extra : List JobId} {rows : JobTable} {id : JobId} {row : QueueJob}
    (found : extra.foldl deleteJob rows id = some row) : rows id = some row := by
  induction extra generalizing rows with
  | nil => exact found
  | cons first rest ih =>
      have before := ih found
      rcases eq_or_ne id first with rfl | other
      · simp [deleteJob] at before
      · simpa [deleteJob, other] using before

theorem kept_withoutSurplus {bound : JobId} {keep : ℕ} {rows : JobTable} {queues : List QueueId}
    {id : JobId} {row : QueueJob} (found : withoutSurplus bound keep rows queues id = some row) :
    rows id = some row := by
  induction queues generalizing rows with
  | nil => exact found
  | cons first rest ih => exact kept_deleteJobs (ih found)

theorem kept_finishedPurged {bound : JobId} {rows : JobTable} {keep cut : ℕ} {id : JobId}
    {row : QueueJob} (found : finishedPurged bound rows keep cut id = some row) :
    rows id = some row :=
  (Option.filter_eq_some_iff.mp (kept_withoutSurplus found)).1

/-- `Engine.purgeIfNeeded`. -/
def purgeIfNeeded (limits : Limits) (backlog : Backlog) : Backlog :=
  let stats := backlog.stats
  if stats.1 ≥ limits.maxJobs ∨ stats.2 ≥ limits.maxBytes then
    backlog.dropLoop limits (oldestWaiting backlog.nextJob backlog.rows 8) stats.1 stats.2
  else
    backlog.keepOnly (finishedPurged backlog.nextJob backlog.rows 40 (backlog.clock - 2 * 3600))
      fun _ _ found => kept_finishedPurged found

end Backlog

/-- The rows after some of them were dropped. -/
def dropRows (clock : ℕ) (dropped : List QueueJob) (rows : JobTable) : JobTable :=
  fun id => (rows id).map fun row =>
    if row ∈ dropped then droppedJob clock "queue size limit" row else row

section Loop

variable {limits : Limits} {backlog : Backlog} {listed : List QueueJob}

theorem nodup_scan {bound : JobId} {rows : JobTable} (ids : RowIds rows bound) :
    (scan bound rows).Nodup := by
  apply List.Nodup.filterMap _ List.nodup_range
  intro first second row firstFound secondFound
  rw [← (ids first row firstFound).1, (ids second row secondFound).1]

theorem nodup_waiting (backlog : Backlog) : backlog.waiting.Nodup :=
  (nodup_scan backlog.ids).filter _

theorem mem_waiting {row : QueueJob} :
    row ∈ backlog.waiting ↔ backlog.rows row.id = some row ∧ row.status = .waiting :=
  mem_waitingRows backlog.ids

@[simp]
theorem dropWaiter_clock (id : JobId) (reason : String) :
    (backlog.dropWaiter id reason).clock = backlog.clock := by
  simp only [Backlog.dropWaiter]
  split <;> rfl

@[simp]
theorem dropWaiter_nextJob (id : JobId) (reason : String) :
    (backlog.dropWaiter id reason).nextJob = backlog.nextJob := by
  simp only [Backlog.dropWaiter]
  split <;> rfl

theorem dropWaiter_rows {job : QueueJob} (waits : job ∈ backlog.waiting) :
    (backlog.dropWaiter job.id "queue size limit").rows =
      dropRows backlog.clock [job] backlog.rows := by
  have found := (mem_waiting.mp waits).1
  simp only [Backlog.dropWaiter, backlog.registered job waits, Backlog.save, Backlog.replace]
  funext id
  rcases eq_or_ne id job.id with rfl | other
  · simp [updateJob, dropRows, found, droppedJob, overwriteJob]
  · have differs : ∀ row, backlog.rows id = some row → row ≠ job := by
      rintro row stored rfl
      exact other (backlog.ids id row stored).1.symm
    cases stored : backlog.rows id with
    | none => simp [updateJob, dropRows, stored, droppedJob, other]
    | some row => simp [updateJob, dropRows, stored, droppedJob, other, differs row stored]

/-- The waiting rows after some were dropped. -/
theorem mem_waitingRows_dropRows {clock : ℕ} {dropped : List QueueJob} {row : QueueJob}
    {bound : JobId} {rows : JobTable} (ids : RowIds (dropRows clock dropped rows) bound) :
    row ∈ waitingRows bound (dropRows clock dropped rows) ↔
      (rows row.id = some row ∧ row.status = .waiting) ∧ row ∉ dropped := by
  rw [mem_waitingRows ids, dropRows, Option.map_eq_some_iff]
  constructor
  · rintro ⟨⟨before, stored, isRow⟩, waits⟩
    split at isRow
    · rw [← isRow] at waits
      cases waits
    · rename_i kept
      subst isRow
      exact ⟨⟨stored, waits⟩, kept⟩
  · rintro ⟨⟨stored, waits⟩, kept⟩
    exact ⟨⟨row, stored, if_neg kept⟩, waits⟩

theorem dropRows_dropRows {clock : ℕ} {job : QueueJob} {rest : List QueueJob} {rows : JobTable}
    (wait : ∀ row ∈ rest, row.status = .waiting) :
    dropRows clock rest (dropRows clock [job] rows) = dropRows clock (job :: rest) rows := by
  have ended : droppedJob clock "queue size limit" job ∉ rest := by
    intro listed
    have waits := wait _ listed
    cases waits
  funext id
  simp only [dropRows, Option.map_map]
  apply congrArg (fun change => Option.map change (rows id))
  funext row
  by_cases isJob : row = job
  · simp [isJob, ended]
  · simp [isJob]

theorem due_le_length (limits : Limits) (jobs bytes : ℤ) (listed : List QueueJob) :
    due limits jobs bytes listed ≤ listed.length := by
  induction listed generalizing jobs bytes with
  | nil => exact le_rfl
  | cons job rest ih =>
      have later := ih (jobs - 1) (bytes - job.bytes)
      simp only [due]
      split <;> rw [List.length_cons] <;> omega

/-- The loop drops the first jobs of the list, as many as must go. -/
theorem dropLoop_rows (limits : Limits) (jobs bytes : ℤ) (distinct : listed.Nodup)
    (wait : ∀ job ∈ listed, job ∈ backlog.waiting) :
    (backlog.dropLoop limits listed jobs bytes).rows =
        dropRows backlog.clock (listed.take (due limits jobs bytes listed)) backlog.rows ∧
      (backlog.dropLoop limits listed jobs bytes).nextJob = backlog.nextJob := by
  induction listed generalizing backlog jobs bytes with
  | nil =>
      have same : dropRows backlog.clock [] backlog.rows = backlog.rows := by
        funext id
        simp [dropRows]
      simp [Backlog.dropLoop, due, same]
  | cons job rest ih =>
      rw [List.forall_mem_cons] at wait
      rw [List.nodup_cons] at distinct
      have afterOne := dropWaiter_rows wait.1
      simp only [Backlog.dropLoop, due]
      split
      · simp [afterOne]
      · have stillWait : ∀ row ∈ rest, row ∈ (backlog.dropWaiter job.id "queue size limit").waiting := by
          intro row inside
          have ids := (backlog.dropWaiter job.id "queue size limit").ids
          rw [Backlog.waiting]
          rw [afterOne] at ids ⊢
          rw [mem_waitingRows_dropRows ids]
          refine ⟨mem_waiting.mp (wait.2 row inside), ?_⟩
          rw [List.mem_singleton]
          rintro rfl
          exact distinct.1 inside
        rcases ih (jobs - 1) (bytes - job.bytes) distinct.2 stillWait with ⟨rowsAfter, idsAfter⟩
        refine ⟨?_, by rw [idsAfter, dropWaiter_nextJob]⟩
        rw [rowsAfter, afterOne, dropWaiter_clock, List.take_succ_cons]
        apply dropRows_dropRows
        intro row inside
        exact (mem_waiting.mp (wait.2 row (List.mem_of_mem_take inside))).2

end Loop

section Due

variable {limits : Limits} {jobs bytes : ℤ} {listed : List QueueJob}

/-- The totals without some jobs are below the limits. -/
def BelowWithout (limits : Limits) (jobs bytes : ℤ) (gone : List QueueJob) : Prop :=
  jobs - gone.length < limits.maxJobs ∧
    bytes - ((gone.map (·.bytes)).sum : ℕ) < limits.maxBytes

theorem belowWithout_cons {job : QueueJob} {rest : List QueueJob} :
    BelowWithout limits jobs bytes (job :: rest) ↔
      BelowWithout limits (jobs - 1) (bytes - job.bytes) rest := by
  simp only [BelowWithout, List.length_cons, List.map_cons, List.sum_cons]
  push_cast
  constructor <;> intro below <;> omega

/-- After the jobs that must go, the totals are below the limits or no job is left. -/
theorem due_enough (limits : Limits) (jobs bytes : ℤ) (listed : List QueueJob) :
    BelowWithout limits jobs bytes (listed.take (due limits jobs bytes listed)) ∨
      due limits jobs bytes listed = listed.length := by
  induction listed generalizing jobs bytes with
  | nil => exact Or.inr rfl
  | cons job rest ih =>
      simp only [due]
      split
      · rename_i below
        left
        rw [List.take_succ_cons, List.take_zero, belowWithout_cons]
        simpa [BelowWithout] using below
      · rw [List.take_succ_cons, belowWithout_cons, List.length_cons, Nat.succ_inj]
        exact ih _ _

/-- One job less is not enough. -/
theorem due_least {count : ℕ} (atLimit : ¬BelowWithout limits jobs bytes [])
    (fewer : count < due limits jobs bytes listed) :
    ¬BelowWithout limits jobs bytes (listed.take count) := by
  induction listed generalizing jobs bytes count with
  | nil => exact absurd fewer (Nat.not_lt_zero _)
  | cons job rest ih =>
      cases count with
      | zero => exact atLimit
      | succ count =>
          simp only [due] at fewer
          split at fewer
          · omega
          · rename_i still
            rw [List.take_succ_cons, belowWithout_cons]
            apply ih _ (Nat.lt_of_succ_lt_succ fewer)
            simpa [BelowWithout] using still

theorem due_take (count : ℕ) :
    due limits jobs bytes (listed.take count) = min count (due limits jobs bytes listed) := by
  induction listed generalizing jobs bytes count with
  | nil => simp [due]
  | cons job rest ih =>
      cases count with
      | zero => simp [due]
      | succ count =>
          rw [List.take_succ_cons]
          simp only [due]
          split
          · omega
          · rw [ih]
            omega

end Due

namespace Backlog

/-- The waiting jobs in the order of their numbers, as `OldestWaiting` reads them. -/
def bySeq (backlog : Backlog) : List QueueJob :=
  backlog.waiting.insertionSort (·.seq ≤ ·.seq)

/-- How many of the waiting jobs must go. -/
def mustGo (limits : Limits) (backlog : Backlog) : ℕ :=
  due limits backlog.stats.1 backlog.stats.2 backlog.bySeq

/-- A purge that drops waiting jobs only, the oldest ones, and as many as must go. -/
structure DropsOldest (limits : Limits) (before after : Backlog) : Prop where
  others : ∀ id row, before.rows id = some row → row.status ≠ .waiting → after.rows id = some row
  fewer : ∀ row ∈ after.waiting, row ∈ before.waiting
  oldest : ∀ dropped ∈ before.waiting, dropped ∉ after.waiting →
    ∀ kept ∈ after.waiting, dropped.createdAt ≤ kept.createdAt
  enough : limits.Below after.stats ∨ after.waiting = []
  least : (∀ row ∈ before.waiting, row ∈ after.waiting) ∨
    ∃ last ∈ before.waiting, last ∉ after.waiting ∧
      ¬limits.Below (after.stats.1 + 1, after.stats.2 + last.bytes)

/-- Of the waiting jobs in the order of their numbers at most eight must go, and none of those is
younger than a job of another queue behind them. -/
def InSeqOrder (limits : Limits) (backlog : Backlog) : Prop :=
  backlog.mustGo limits ≤ 8 ∧
    ∀ dropped ∈ backlog.bySeq.take (backlog.mustGo limits),
      ∀ kept ∈ backlog.bySeq.drop (backlog.mustGo limits),
        dropped.queueId ≠ kept.queueId → dropped.createdAt ≤ kept.createdAt

instance (limits : Limits) (backlog : Backlog) : Decidable (backlog.InSeqOrder limits) :=
  inferInstanceAs (Decidable (_ ∧ _))

end Backlog

section Purge

variable {limits : Limits} {backlog : Backlog}

theorem bySeq_perm (backlog : Backlog) : backlog.bySeq.Perm backlog.waiting :=
  List.perm_insertionSort _ _

theorem bySeq_nodup (backlog : Backlog) : backlog.bySeq.Nodup :=
  (bySeq_perm backlog).nodup_iff.mpr (nodup_waiting backlog)

theorem bySeq_sorted (backlog : Backlog) :
    backlog.bySeq.Pairwise fun first second => first.seq ≤ second.seq :=
  have sorted : (orderBy QueueJob.seq backlog.waiting).Pairwise _ := orderBy_sorted backlog.waiting
  sorted

theorem oldestWaiting_eq (backlog : Backlog) :
    oldestWaiting backlog.nextJob backlog.rows 8 = backlog.bySeq.take 8 := rfl

/-- The rows that count are those of before without the dropped ones. -/
theorem active_dropRows {clock : ℕ} {dropped : List QueueJob} {bound : JobId} {rows : JobTable} :
    (scan bound (dropRows clock dropped rows)).filter (·.status.isActive) =
      ((scan bound rows).filter (·.status.isActive)).filter (· ∉ dropped) := by
  let change (row : QueueJob) : QueueJob :=
    if row ∈ dropped then droppedJob clock "queue size limit" row else row
  have counts : ∀ row : QueueJob,
      (change row).status.isActive = (row.status.isActive && decide (row ∉ dropped)) := by
    intro row
    by_cases gone : row ∈ dropped
    · simp [change, gone, droppedJob, JobStatus.isActive]
    · simp [change, gone]
  have mapped : scan bound (dropRows clock dropped rows) = (scan bound rows).map change :=
    (List.map_filterMap ..).symm
  rw [mapped, List.filter_map, List.filter_filter]
  have sameTest : ((·.status.isActive) ∘ change) =
      fun row : QueueJob => decide (row ∉ dropped) && row.status.isActive := by
    funext row
    rw [Function.comp_apply, counts, Bool.and_comm]
  rw [sameTest]
  calc ((scan bound rows).filter fun row => decide (row ∉ dropped) && row.status.isActive).map change
      = ((scan bound rows).filter fun row =>
          decide (row ∉ dropped) && row.status.isActive).map id := by
        apply List.map_congr_left
        intro row listed
        have kept := (List.mem_filter.mp listed).2
        simp only [Bool.and_eq_true, decide_eq_true_eq] at kept
        exact if_neg kept.1
    _ = _ := List.map_id _

/-- Dropping waiting rows takes them off the totals. -/
theorem waitingStats_dropRows {clock : ℕ} {dropped : List QueueJob} (distinct : dropped.Nodup)
    (wait : ∀ row ∈ dropped, row ∈ backlog.waiting) :
    (waitingStats backlog.nextJob (dropRows clock dropped backlog.rows)).1 + dropped.length =
        backlog.stats.1 ∧
      (waitingStats backlog.nextJob (dropRows clock dropped backlog.rows)).2 +
        (dropped.map (·.bytes)).sum = backlog.stats.2 := by
  simp only [Backlog.stats, waitingStats, active_dropRows]
  generalize isActive : (scan backlog.nextJob backlog.rows).filter (·.status.isActive) = active
  have gone : (active.filter (· ∈ dropped)).Perm dropped := by
    rw [List.perm_ext_iff_of_nodup _ distinct]
    · intro row
      rw [List.mem_filter, decide_eq_true_eq, and_iff_right_iff_imp]
      intro listed
      rcases List.mem_filter.mp (wait row listed) with ⟨stored, waits⟩
      rw [decide_eq_true_eq] at waits
      rw [← isActive, List.mem_filter]
      exact ⟨stored, by simp [JobStatus.isActive, waits]⟩
    · rw [← isActive]
      exact ((nodup_scan backlog.ids).filter _).filter _
  have parts : (active.filter (· ∉ dropped) ++ dropped).Perm active := by
    have whole := List.filter_append_perm (· ∈ dropped) active
    simp only [← decide_not] at whole
    exact ((gone.append_right _).symm.trans whole).symm.trans List.perm_append_comm |>.symm
  constructor
  · simpa using parts.length_eq
  · simpa using (parts.map (·.bytes)).sum_nat

/-- What the purge does at the limits. -/
theorem purgeIfNeeded_rows (above : ¬limits.Below backlog.stats) :
    (backlog.purgeIfNeeded limits).rows =
        dropRows backlog.clock (backlog.bySeq.take (min 8 (backlog.mustGo limits))) backlog.rows ∧
      (backlog.purgeIfNeeded limits).nextJob = backlog.nextJob := by
  have reached : backlog.stats.1 ≥ limits.maxJobs ∨ backlog.stats.2 ≥ limits.maxBytes := by
    simp only [Limits.Below] at above
    omega
  have distinct : (backlog.bySeq.take 8).Nodup :=
    (bySeq_nodup backlog).sublist (List.take_sublist _ _)
  have wait : ∀ job ∈ backlog.bySeq.take 8, job ∈ backlog.waiting := by
    intro job listed
    exact (bySeq_perm backlog).mem_iff.mp (List.mem_of_mem_take listed)
  have dropped := dropLoop_rows limits backlog.stats.1 backlog.stats.2 distinct wait
  have sameCount : min (min 8 (backlog.mustGo limits)) 8 = min 8 (backlog.mustGo limits) := by
    omega
  rw [due_take, List.take_take, ← Backlog.mustGo, sameCount] at dropped
  simp only [Backlog.purgeIfNeeded, if_pos reached, oldestWaiting_eq]
  exact dropped

theorem mem_waiting_purge (above : ¬limits.Below backlog.stats) {row : QueueJob} :
    row ∈ (backlog.purgeIfNeeded limits).waiting ↔
      row ∈ backlog.waiting ∧ row ∉ backlog.bySeq.take (min 8 (backlog.mustGo limits)) := by
  rcases purgeIfNeeded_rows above with ⟨rowsAfter, idsAfter⟩
  have ids := (backlog.purgeIfNeeded limits).ids
  rw [Backlog.waiting]
  rw [rowsAfter] at ids ⊢
  rw [mem_waitingRows_dropRows ids, mem_waiting]

theorem mem_waiting_purge_iff_drop (above : ¬limits.Below backlog.stats) {row : QueueJob} :
    row ∈ (backlog.purgeIfNeeded limits).waiting ↔
      row ∈ backlog.bySeq.drop (min 8 (backlog.mustGo limits)) := by
  have parts := List.take_append_drop (min 8 (backlog.mustGo limits)) backlog.bySeq
  have distinct := bySeq_nodup backlog
  rw [← parts, List.nodup_append] at distinct
  rw [mem_waiting_purge above, ← (bySeq_perm backlog).mem_iff]
  constructor
  · rintro ⟨listed, kept⟩
    rw [← parts, List.mem_append] at listed
    exact listed.resolve_left kept
  · intro kept
    refine ⟨List.mem_of_mem_drop kept, ?_⟩
    intro taken
    exact distinct.2.2 row taken row kept rfl

/-- The totals after the purge, and what was dropped. -/
theorem stats_purge (above : ¬limits.Below backlog.stats) (gone : List QueueJob)
    (isGone : gone = backlog.bySeq.take (min 8 (backlog.mustGo limits))) :
    (backlog.purgeIfNeeded limits).stats.1 + gone.length = backlog.stats.1 ∧
      (backlog.purgeIfNeeded limits).stats.2 + (gone.map (·.bytes)).sum = backlog.stats.2 := by
  rcases purgeIfNeeded_rows above with ⟨rowsAfter, idsAfter⟩
  rw [Backlog.stats, rowsAfter, idsAfter, ← isGone]
  apply waitingStats_dropRows
  · rw [isGone]
    exact (bySeq_nodup backlog).sublist (List.take_sublist _ _)
  · intro row listed
    rw [isGone] at listed
    exact (bySeq_perm backlog).mem_iff.mp (List.mem_of_mem_take listed)

theorem below_purge_iff (above : ¬limits.Below backlog.stats) :
    limits.Below (backlog.purgeIfNeeded limits).stats ↔
      BelowWithout limits backlog.stats.1 backlog.stats.2
        (backlog.bySeq.take (min 8 (backlog.mustGo limits))) := by
  have totals := stats_purge above _ rfl
  simp only [Limits.Below, BelowWithout]
  omega

theorem not_belowWithout_nil (above : ¬limits.Below backlog.stats) :
    ¬BelowWithout limits backlog.stats.1 backlog.stats.2 [] := by
  simpa [BelowWithout, Limits.Below] using above

/-- The purge leaves rows that do not wait alone. -/
theorem purge_others (above : ¬limits.Below backlog.stats) {id : JobId} {row : QueueJob}
    (stored : backlog.rows id = some row) (other : row.status ≠ .waiting) :
    (backlog.purgeIfNeeded limits).rows id = some row := by
  have kept : row ∉ backlog.bySeq.take (min 8 (backlog.mustGo limits)) := by
    intro taken
    have waits := (bySeq_perm backlog).mem_iff.mp (List.mem_of_mem_take taken)
    exact other (mem_waiting.mp waits).2
  rw [(purgeIfNeeded_rows above).1]
  simp [dropRows, stored, kept]

/-- The purge drops no job more than needed. -/
theorem purge_least (above : ¬limits.Below backlog.stats) :
    (∀ row ∈ backlog.waiting, row ∈ (backlog.purgeIfNeeded limits).waiting) ∨
      ∃ last ∈ backlog.waiting, last ∉ (backlog.purgeIfNeeded limits).waiting ∧
        ¬limits.Below ((backlog.purgeIfNeeded limits).stats.1 + 1,
          (backlog.purgeIfNeeded limits).stats.2 + last.bytes) := by
  cases count : min 8 (backlog.mustGo limits) with
  | zero =>
      left
      intro row waits
      rw [mem_waiting_purge above, count]
      exact ⟨waits, by simp⟩
  | succ before =>
      right
      have inRange : before < backlog.bySeq.length := by
        have most := due_le_length limits backlog.stats.1 backlog.stats.2 backlog.bySeq
        rw [← Backlog.mustGo] at most
        omega
      have taken : backlog.bySeq.take (before + 1) =
          backlog.bySeq.take before ++ [backlog.bySeq[before]] := by
        rw [List.take_succ_eq_append_getElem inRange]
      refine ⟨backlog.bySeq[before], ?_, ?_, ?_⟩
      · exact (bySeq_perm backlog).mem_iff.mp (List.getElem_mem inRange)
      · rw [mem_waiting_purge above, count, taken]
        exact fun stays => stays.2 (List.mem_append_right _ (List.mem_singleton_self _))
      · have notYet : ¬BelowWithout limits backlog.stats.1 backlog.stats.2
            (backlog.bySeq.take before) := by
          apply due_least (not_belowWithout_nil above)
          rw [← Backlog.mustGo]
          omega
        have totals := stats_purge above _ rfl
        rw [count, taken] at totals
        simp only [List.length_append, List.length_singleton, List.map_append, List.map_singleton,
          List.sum_append, List.sum_singleton] at totals
        simp only [BelowWithout, Limits.Below] at notYet ⊢
        omega

/-- When a purge at the limits drops the oldest jobs, and as many as must go. -/
theorem dropsOldest_iff (above : ¬limits.Below backlog.stats) :
    Backlog.DropsOldest limits backlog (backlog.purgeIfNeeded limits) ↔
      backlog.InSeqOrder limits := by
  constructor
  · intro drops
    have atMost : backlog.mustGo limits ≤ 8 := by
      by_contra more
      have eight : min 8 (backlog.mustGo limits) = 8 := by omega
      rcases drops.enough with below | none
      · rw [below_purge_iff above, eight] at below
        exact due_least (not_belowWithout_nil above) (by rw [← Backlog.mustGo]; omega) below
      · have nothingLeft : backlog.bySeq.drop 8 = [] := by
          rw [List.eq_nil_iff_forall_not_mem]
          intro row listed
          rw [← eight, ← mem_waiting_purge_iff_drop above, none] at listed
          cases listed
        rw [List.drop_eq_nil_iff] at nothingLeft
        have most := due_le_length limits backlog.stats.1 backlog.stats.2 backlog.bySeq
        rw [← Backlog.mustGo] at most
        omega
    have count : min 8 (backlog.mustGo limits) = backlog.mustGo limits := by omega
    refine ⟨atMost, ?_⟩
    intro dropped taken kept left _
    apply drops.oldest
    · exact (bySeq_perm backlog).mem_iff.mp (List.mem_of_mem_take taken)
    · rw [mem_waiting_purge above, count]
      exact fun stays => stays.2 taken
    · rw [mem_waiting_purge_iff_drop above, count]
      exact left
  · rintro ⟨atMost, inOrder⟩
    have count : min 8 (backlog.mustGo limits) = backlog.mustGo limits := by omega
    constructor
    · intro id row stored other
      exact purge_others above stored other
    · intro row stays
      exact ((mem_waiting_purge above).mp stays).1
    · intro dropped waits gone kept left
      have taken : dropped ∈ backlog.bySeq.take (backlog.mustGo limits) := by
        by_contra stays
        rw [← count] at stays
        exact gone ((mem_waiting_purge above).mpr ⟨waits, stays⟩)
      rw [mem_waiting_purge_iff_drop above, count] at left
      by_cases sameQueue : dropped.queueId = kept.queueId
      · have sorted := bySeq_sorted backlog
        rw [← List.take_append_drop (backlog.mustGo limits) backlog.bySeq,
          List.pairwise_append] at sorted
        apply backlog.ordered dropped waits kept _ sameQueue (sorted.2.2 dropped taken kept left)
        exact (bySeq_perm backlog).mem_iff.mp (List.mem_of_mem_drop left)
      · exact inOrder dropped taken kept left sameQueue
    · rcases due_enough limits backlog.stats.1 backlog.stats.2 backlog.bySeq with below | all
      · left
        rw [below_purge_iff above, count]
        exact below
      · right
        rw [← Backlog.mustGo] at all
        rw [List.eq_nil_iff_forall_not_mem]
        intro row left
        rw [mem_waiting_purge_iff_drop above, count, all, List.drop_length] at left
        cases left
    · exact purge_least above

end Purge

/-- An operation on the job table, run to its end. -/
inductive Event
  | insert (values : QueueJob)
  | save (job : QueueJob) (leaves : job.status ≠ .waiting) (stays : Bool)
  | purge
  | advance (seconds : ℕ)
  | restart

/-- The backlog after an operation. -/
def Backlog.next (limits : Limits) (backlog : Backlog) : Event → Backlog
  | .insert values => backlog.insert values
  | .save job leaves stays => backlog.save job leaves stays
  | .purge => backlog.purgeIfNeeded limits
  | .advance seconds => backlog.advance seconds
  | .restart => backlog.restart

/-- The backlogs that `purgeIfNeeded` finds at the limits in a history. -/
def purgesAtLimit (limits : Limits) : Backlog → List Event → List Backlog
  | _, [] => []
  | backlog, event :: rest =>
      let later := purgesAtLimit limits (backlog.next limits event) rest
      match event with
      | .purge => if limits.Below backlog.stats then later else backlog :: later
      | _ => later

theorem over_of_mem_purgesAtLimit {limits : Limits} {start backlog : Backlog}
    {history : List Event} (found : backlog ∈ purgesAtLimit limits start history) :
    ¬limits.Below backlog.stats := by
  induction history generalizing start with
  | nil => cases found
  | cons event rest ih =>
      cases event with
      | purge =>
          simp only [purgesAtLimit] at found
          split at found
          · exact ih found
          · rename_i above
            rcases List.mem_cons.mp found with rfl | later
            · exact above
            · exact ih later
      | insert values => exact ih found
      | save job leaves stays => exact ih found
      | advance seconds => exact ih found
      | restart => exact ih found

/-- In a history every purge at the limits drops the oldest jobs, and as many as must go, exactly
when each of them finds the jobs that must go in the order of their numbers. -/
theorem purges_drop_oldest_iff (limits : Limits) (start : Backlog) (history : List Event) :
    (∀ backlog ∈ purgesAtLimit limits start history,
      Backlog.DropsOldest limits backlog (backlog.purgeIfNeeded limits)) ↔
      ∀ backlog ∈ purgesAtLimit limits start history, backlog.InSeqOrder limits := by
  apply forall_congr'
  intro backlog
  apply imp_congr_right
  intro found
  exact dropsOldest_iff (over_of_mem_purgesAtLimit found)

/-- A request of ten bytes for a queue. -/
def requestFor (queueId : QueueId) (status : JobStatus) : QueueJob :=
  ⟨0, queueId, 0, status, "coder", "", "", "", "", "/v1/chat/completions", 10, "", 0, none⟩

/-- Of two requests in queue 1 the first one is served, then a request arrives in queue 2. -/
def numberedApart : List Event :=
  [.insert (requestFor 1 .waiting), .advance 1, .insert (requestFor 1 .waiting),
    .save ⟨0, 1, 1, .done, "coder", "", "", "", "", "/v1/chat/completions", 10, "", 0, some 1⟩
      (by decide) false, .advance 1, .insert (requestFor 2 .waiting), .purge]

/-- At most two jobs wait or run. -/
def twoJobs : Limits := ⟨1000, 2, by decide, by decide⟩

/-- The request of queue 2 has number one and is dropped, the one of queue 1 has number two and
stays, though it came first. -/
theorem not_purges_drop_oldest :
    ¬∀ (limits : Limits) (start : Backlog) (history : List Event),
      ∀ backlog ∈ purgesAtLimit limits start history,
        Backlog.DropsOldest limits backlog (backlog.purgeIfNeeded limits) := by
  intro claim
  have inOrder : ∀ backlog ∈ purgesAtLimit twoJobs .empty numberedApart,
      backlog.InSeqOrder twoJobs := by
    intro backlog found
    exact (dropsOldest_iff (over_of_mem_purgesAtLimit found)).mp
      (claim twoJobs .empty numberedApart backlog found)
  exact absurd inOrder (by decide)

end MikroLLM.Queue
