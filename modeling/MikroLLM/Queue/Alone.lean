import MikroLLM.Library.Runs
import MikroLLM.Queue.Purging

/-!
# A purge that nothing interrupts

The engine purges in many steps, between which other goroutines act. When none
of them does, the steps come to what `purgeIfNeeded` does to the backlog.
-/

namespace MikroLLM.Queue

open Domain Store Library

/-- The engine holds this backlog, and nobody holds its lock. -/
structure Represents (state : State) (backlog : Backlog) : Prop where
  rows : state.rows = backlog.rows
  nextJob : state.nextJob = backlog.nextJob
  clock : state.clock = backlog.clock
  waiters : ∀ id, backlog.waiters id = if state.registered id then some (state.heap id) else none
  unlocked : state.lock = none

/-- A step of the purge that one goroutine makes. -/
def purgesAs (t : Thread) (_ : State) (action : Action) : Prop :=
  ∃ purging, action = .purge t purging

/-- By its own purge steps alone a goroutine comes from one state to a state that holds a backlog,
where it goes on with a routine. -/
def Purges (limits : Limits) (t : Thread) (state : State) (backlog : Backlog)
    (routine : Routine) : Prop :=
  ∃ actions next, Run (step limits) (purgesAs t) state actions next ∧ Represents next backlog ∧
    next.routines t = routine

section Steps

variable {limits : Limits} {t : Thread} {state next : State} {backlog : Backlog}
  {routine : Routine}

theorem Purges.here (represents : Represents state backlog) (isRoutine : state.routines t = routine) :
    Purges limits t state backlog routine :=
  ⟨[], state, Run.nil state, represents, isRoutine⟩

theorem Purges.after {purging : PurgeStep} (fires : stepPurge limits state t purging = some next)
    (later : Purges limits t next backlog routine) : Purges limits t state backlog routine := by
  rcases later with ⟨actions, last, run, represents, isRoutine⟩
  exact ⟨.purge t purging :: actions, last, Run.cons ⟨purging, rfl⟩ fires run, represents, isRoutine⟩

/-- What a state represents depends on the rows, the waiters, the time and the lock. -/
theorem Represents.of_same (represents : Represents state backlog) (rows : next.rows = state.rows)
    (nextJob : next.nextJob = state.nextJob) (clock : next.clock = state.clock)
    (registered : next.registered = state.registered) (heap : next.heap = state.heap)
    (lock : next.lock = state.lock) : Represents next backlog := by
  constructor
  · rw [rows, represents.rows]
  · rw [nextJob, represents.nextJob]
  · rw [clock, represents.clock]
  · intro id
    rw [registered, heap]
    exact represents.waiters id
  · rw [lock, represents.unlocked]

theorem Represents.setRoutine (represents : Represents state backlog) (t : Thread)
    (routine : Routine) : Represents (state.setRoutine t routine) backlog :=
  represents.of_same rfl rfl rfl rfl rfl rfl

section Drop

variable {j : JobId} {reason : String} {after : AfterDrop}

theorem purges_of_complete (represents : Represents state backlog)
    (isRoutine : state.routines t = .dropping j after) (atComplete : state.drops j = .complete) :
    Purges limits t state backlog (afterDrop limits after) := by
  have completes : stepPurge limits state t .dropComplete =
      some (((state.complete j).setDrop j .finished).setRoutine t (afterDrop limits after)) := by
    simp [stepPurge, isRoutine, atComplete]
  refine Purges.after completes (Purges.here ?_ (by simp))
  exact represents.of_same rfl rfl rfl rfl rfl rfl

theorem purges_of_save {copied : QueueJob}
    (represents : Represents (state.saveJob true copied) backlog)
    (isRoutine : state.routines t = .dropping j after) (atSave : state.drops j = .save copied) :
    Purges limits t state backlog (afterDrop limits after) := by
  have saves : stepPurge limits state t (.dropSave true) =
      some ((state.saveJob true copied).setDrop j .complete) := by
    simp [stepPurge, isRoutine, atSave]
  have nextRoutine : ((state.saveJob true copied).setDrop j .complete).routines t =
      .dropping j after := by
    simpa using isRoutine
  refine Purges.after saves (purges_of_complete ?_ nextRoutine (by simp))
  exact represents.of_same rfl rfl rfl rfl rfl rfl

theorem purges_of_copy (represents : Represents (state.saveJob true (state.heap j)) backlog)
    (isRoutine : state.routines t = .dropping j after) (atCopy : state.drops j = .copy) :
    Purges limits t state backlog (afterDrop limits after) := by
  have copies : stepPurge limits state t .dropCopy =
      some (state.setDrop j (.save (state.heap j))) := by
    simp [stepPurge, isRoutine, atCopy]
  have nextRoutine : (state.setDrop j (.save (state.heap j))).routines t = .dropping j after := by
    simpa using isRoutine
  have atSave : (state.setDrop j (.save (state.heap j))).drops j = .save (state.heap j) := by
    simp
  refine Purges.after copies (purges_of_save ?_ nextRoutine atSave)
  exact represents.of_same rfl rfl rfl rfl rfl rfl

theorem purges_of_mark {marked : QueueJob}
    (isMarked : marked = droppedJob state.clock reason (state.heap j))
    (represents : Represents ((state.setJob j marked).saveJob true marked) backlog)
    (isRoutine : state.routines t = .dropping j after) (atMark : state.drops j = .mark reason) :
    Purges limits t state backlog (afterDrop limits after) := by
  have marks : stepPurge limits state t .dropMark =
      some ((state.setJob j marked).setDrop j .copy) := by
    simp [stepPurge, isRoutine, atMark, isMarked]
  have nextRoutine : ((state.setJob j marked).setDrop j .copy).routines t = .dropping j after := by
    simpa using isRoutine
  refine Purges.after marks (purges_of_copy ?_ nextRoutine (by simp))
  apply represents.of_same <;> simp

/-- `dropWaiter` takes five steps when it finds the waiter, and one when it does not. -/
theorem purges_dropWaiter (represents : Represents state backlog)
    (isRoutine : state.routines t = .dropLock j reason after) :
    Purges limits t state (backlog.dropWaiter j reason) (afterDrop limits after) := by
  have waiter := represents.waiters j
  by_cases registered : state.registered j = true
  · rw [if_pos registered] at waiter
    have named := backlog.named j _ waiter
    have locks : stepPurge limits state t .dropLock =
        some (((state.setRegistered j false).setDrop j (.mark reason)).setRoutine t
          (.dropping j after)) := by
      simp [stepPurge, isRoutine, represents.unlocked, registered]
    have drops : backlog.dropWaiter j reason =
        backlog.save (droppedJob backlog.clock reason (state.heap j)) (by simp [droppedJob])
          false := by
      simp [Backlog.dropWaiter, waiter]
    rw [drops]
    have nextRoutine : (((state.setRegistered j false).setDrop j (.mark reason)).setRoutine t
        (.dropping j after)).routines t = .dropping j after := by
      simp
    have atMark : (((state.setRegistered j false).setDrop j (.mark reason)).setRoutine t
        (.dropping j after)).drops j = .mark reason := by
      simp
    refine Purges.after locks (purges_of_mark rfl ?_ nextRoutine atMark)
    constructor
    · simp [Backlog.save, Backlog.replace, represents.rows, represents.clock]
    · simpa [Backlog.save, Backlog.replace] using represents.nextJob
    · simpa [Backlog.save, Backlog.replace] using represents.clock
    · intro id
      rcases eq_or_ne id j with rfl | other
      · simp [Backlog.save, Backlog.replace, droppedJob, named]
      · simp [Backlog.save, Backlog.replace, droppedJob, named, other, represents.waiters id]
    · simpa using represents.unlocked
  · rw [if_neg registered] at waiter
    have nobody : backlog.dropWaiter j reason = backlog := by
      simp [Backlog.dropWaiter, waiter]
    have skips : stepPurge limits state t .dropLock =
        some (state.setRoutine t (afterDrop limits after)) := by
      simp [stepPurge, isRoutine, represents.unlocked, registered]
    rw [nobody]
    exact (Purges.here (represents.setRoutine t _) (by simp)).after skips

end Drop

/-- The steps of one routine, and then those of the next one. -/
theorem Purges.andThen {middle last : Backlog} {between ends : Routine}
    (first : Purges limits t state middle between)
    (second : ∀ next, Represents next middle → next.routines t = between →
      Purges limits t next last ends) : Purges limits t state last ends := by
  rcases first with ⟨actions, next, run, represents, isRoutine⟩
  rcases second next represents isRoutine with ⟨more, final, moreRun, finalRepresents, finalRoutine⟩
  exact ⟨actions ++ more, final, run.append moreRun, finalRepresents, finalRoutine⟩

theorem purges_dropLoop {listed : List QueueJob} {jobs bytes : ℤ}
    (represents : Represents state backlog)
    (isRoutine : state.routines t = .purgeNext listed jobs bytes) :
    Purges limits t state (backlog.dropLoop limits listed jobs bytes) .idle := by
  induction listed generalizing state backlog jobs bytes with
  | nil =>
      have ends : stepPurge limits state t .next = some (state.setRoutine t .idle) := by
        simp [stepPurge, isRoutine]
      exact (Purges.here (represents.setRoutine t _) (by simp)).after ends
  | cons job rest ih =>
      let after : AfterDrop := .purge rest (jobs - 1) (bytes - job.bytes)
      have takes : stepPurge limits state t .next =
          some (state.setRoutine t (.dropLock job.id "queue size limit" after)) := by
        simp [stepPurge, isRoutine, after]
      refine Purges.after takes ?_
      have dropRoutine : (state.setRoutine t (.dropLock job.id "queue size limit" after)).routines t =
          .dropLock job.id "queue size limit" after := by
        simp
      refine (purges_dropWaiter (represents.setRoutine t _) dropRoutine).andThen ?_
      intro next nextRepresents nextRoutine
      simp only [after, afterDrop] at nextRoutine
      simp only [Backlog.dropLoop]
      split
      · rename_i below
        rw [if_pos below] at nextRoutine
        exact Purges.here nextRepresents nextRoutine
      · rename_i above
        rw [if_neg above] at nextRoutine
        exact ih nextRepresents nextRoutine

theorem Represents.setRows {rows : JobTable} (represents : Represents state backlog)
    (kept : ∀ id row, rows id = some row → backlog.rows id = some row) :
    Represents (state.setRows rows) (backlog.keepOnly rows kept) :=
  ⟨rfl, represents.nextJob, represents.clock, represents.waiters, represents.unlocked⟩

theorem purges_deletes {extra : List JobId} {queues : List QueueId}
    (represents : Represents state backlog)
    (isRoutine : state.routines t = .purgeDelete extra queues) :
    Purges limits t state
      (backlog.keepOnly (extra.foldl deleteJob backlog.rows) fun _ _ => Backlog.kept_deleteJobs)
      (.purgeSurplus queues) := by
  induction extra generalizing state backlog with
  | nil =>
      have ends : stepPurge limits state t .delete =
          some (state.setRoutine t (.purgeSurplus queues)) := by
        simp [stepPurge, isRoutine]
      exact (Purges.here (represents.setRoutine t _) (by simp)).after ends
  | cons job rest ih =>
      have deletes : stepPurge limits state t .delete =
          some ((state.setRows (deleteJob state.rows job)).setRoutine t
            (.purgeDelete rest queues)) := by
        simp [stepPurge, isRoutine]
      have kept : ∀ id row, deleteJob backlog.rows job id = some row →
          backlog.rows id = some row := by
        intro id row found
        have deleted : [job].foldl deleteJob backlog.rows id = some row := found
        exact Backlog.kept_deleteJobs deleted
      rw [represents.rows] at deletes
      exact (ih ((represents.setRows kept).setRoutine t _) (by simp)).after deletes

theorem purges_surplus {queues : List QueueId} (represents : Represents state backlog)
    (isRoutine : state.routines t = .purgeSurplus queues) :
    Purges limits t state
      (backlog.keepOnly (Backlog.withoutSurplus backlog.nextJob 40 backlog.rows queues)
        fun _ _ => Backlog.kept_withoutSurplus) .idle := by
  induction queues generalizing state backlog with
  | nil =>
      have ends : stepPurge limits state t .surplus = some (state.setRoutine t .idle) := by
        simp [stepPurge, isRoutine]
      exact (Purges.here (represents.setRoutine t _) (by simp)).after ends
  | cons queueId rest ih =>
      let extra := surplus backlog.nextJob backlog.rows 40 queueId
      have lists : stepPurge limits state t .surplus =
          some (state.setRoutine t (.purgeDelete extra rest)) := by
        simp [stepPurge, isRoutine, represents.nextJob, represents.rows, extra]
      refine Purges.after lists ?_
      have deleteRoutine : (state.setRoutine t (.purgeDelete extra rest)).routines t =
          .purgeDelete extra rest := by
        simp
      refine (purges_deletes (represents.setRoutine t _) deleteRoutine).andThen ?_
      intro next nextRepresents nextRoutine
      exact ih nextRepresents nextRoutine

/-- The purge of a goroutine that no other one interrupts is `purgeIfNeeded` on the backlog. -/
theorem purges_purgeIfNeeded (represents : Represents state backlog)
    (isRoutine : state.routines t = .purgeStats) :
    Purges limits t state (backlog.purgeIfNeeded limits) .idle := by
  have sameStats : waitingStats state.nextJob state.rows = backlog.stats := by
    rw [represents.nextJob, represents.rows, Backlog.stats]
  simp only [Backlog.purgeIfNeeded]
  split
  · rename_i above
    have counts : stepPurge limits state t .stats =
        some (state.setRoutine t (.purgeOldest backlog.stats.1 backlog.stats.2)) := by
      simp [stepPurge, isRoutine, sameStats, above]
    let listed := oldestWaiting backlog.nextJob backlog.rows 8
    have reads : stepPurge limits
        (state.setRoutine t (.purgeOldest backlog.stats.1 backlog.stats.2)) t .oldest =
          some ((state.setRoutine t (.purgeOldest backlog.stats.1 backlog.stats.2)).setRoutine t
            (.purgeNext listed backlog.stats.1 backlog.stats.2)) := by
      simp [stepPurge, represents.nextJob, represents.rows, listed]
    refine Purges.after counts (Purges.after reads ?_)
    exact purges_dropLoop ((represents.setRoutine t _).setRoutine t _) (by simp [listed])
  · rename_i below
    have counts : stepPurge limits state t .stats = some (state.setRoutine t .purgeAged) := by
      simp [stepPurge, isRoutine, sameStats, below]
    let aged := deleteAged backlog.rows (backlog.clock - 2 * 3600)
    have kept : ∀ id row, aged id = some row → backlog.rows id = some row := by
      intro id row found
      exact (Option.filter_eq_some_iff.mp found).1
    have deletes : stepPurge limits (state.setRoutine t .purgeAged) t .aged =
        some (((state.setRoutine t .purgeAged).setRows aged).setRoutine t .purgeQueues) := by
      simp [stepPurge, represents.rows, represents.clock, aged]
    let queues := distinctQueues backlog.nextJob aged
    have lists : stepPurge limits
        (((state.setRoutine t .purgeAged).setRows aged).setRoutine t .purgeQueues) t .queues =
          some ((((state.setRoutine t .purgeAged).setRows aged).setRoutine t
            .purgeQueues).setRoutine t (.purgeSurplus queues)) := by
      simp [stepPurge, represents.nextJob, queues]
    refine Purges.after counts (Purges.after deletes (Purges.after lists ?_))
    have agedRepresents := ((((represents.setRoutine t .purgeAged).setRows kept).setRoutine t
      .purgeQueues).setRoutine t (.purgeSurplus queues))
    have surplusRoutine : ((((state.setRoutine t .purgeAged).setRows aged).setRoutine t
        .purgeQueues).setRoutine t (.purgeSurplus queues)).routines t = .purgeSurplus queues := by
      simp
    exact purges_surplus agedRepresents surplusRoutine

end Steps

end MikroLLM.Queue
