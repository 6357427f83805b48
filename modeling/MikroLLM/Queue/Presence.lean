import MikroLLM.Queue.Ownership

/-!
# Who is in the map of waiters

A waiter leaves the map in three ways: `dropWaiter` takes it, `finish` takes it,
or it was never put in. Its call stays until one of them has happened.
-/

namespace MikroLLM.Queue

open Domain Store Library

/-- What leaves the map of waiters leaves it for a drop or for the end of its `run`, and before
its call returns. -/
structure Presence (state : State) : Prop where
  present : ∀ j, Entered state.calls state.writer j →
    state.registered j = true ∨ state.drops j ≠ .absent ∨ (state.runs j).finished = true
  closed : ∀ j, state.closed j = true → state.registered j = false
  expired : ∀ c j, (state.calls c).pc = .timeout j → state.registered j = true →
    ∃ reason after, state.routines (.call c) = .dropLock j reason after
  left : ∀ c j, (state.calls c).waiter = some j → (state.calls c).pc.leaves = true →
    state.registered j = false

section Presence

variable {limits : Limits} {state next : State} {c : CallId}

/-- A call goes on with the waiter it had. -/
theorem Presence.setCall {call : Call} (inv : Presence state)
    (waiter : call.waiter = (state.calls c).waiter)
    (expired : ∀ j, call.pc = .timeout j → state.registered j = true →
      ∃ reason after, state.routines (.call c) = .dropLock j reason after)
    (left : ∀ j, (state.calls c).waiter = some j → call.pc.leaves = true →
      state.registered j = false) : Presence (state.setCall c call) := by
  refine ⟨?_, inv.closed, ?_, ?_⟩
  · intro j entered
    apply inv.present
    simp only [Entered, State.setCall_calls, State.setCall_writer] at entered ⊢
    rcases eq_or_ne (state.writer j) c with same | different
    · rw [same] at entered ⊢
      simpa [waiter] using entered
    · simpa [different] using entered
  · intro other j
    rcases eq_or_ne other c with rfl | different
    · simpa using expired j
    · simpa [different] using inv.expired other j
  · intro other j
    rcases eq_or_ne other c with rfl | different
    · simpa [waiter] using left j
    · simpa [different] using inv.left other j

/-- A call goes on to a place where it neither drops its waiter nor leaves. -/
theorem Presence.setPc {pc : CallPc} (inv : Presence state) (notTimeout : ∀ j, pc ≠ .timeout j)
    (stays : pc.leaves = false) : Presence (state.setPc c pc) := by
  refine inv.setCall rfl ?_ ?_
  · intro j isTimeout
    exact (notTimeout j isTimeout).elim
  · intro j _ leaves
    simp [stays] at leaves

/-- A call without a registered waiter answers. -/
theorem Presence.answer {response : Response} (inv : Presence state)
    (left : ∀ j, (state.calls c).waiter = some j → state.registered j = false) :
    Presence (state.answer c response) := by
  refine inv.setCall rfl ?_ fun j waiter _ => left j waiter
  simp

/-- A goroutine moves inside a shared routine. -/
theorem Presence.setRoutine {t : Thread} {routine : Routine} (inv : Presence state)
    (own : ∀ other j, t = .call other → (state.calls other).pc = .timeout j →
      state.registered j = true → ∃ reason after, routine = .dropLock j reason after) :
    Presence (state.setRoutine t routine) := by
  refine ⟨inv.present, inv.closed, ?_, inv.left⟩
  intro other j pc present
  rcases eq_or_ne (.call other) t with same | different
  · simpa [same] using own other j same.symm pc present
  · simpa [different] using inv.expired other j pc present

/-- A goroutine that is not about to drop a waiter goes on. -/
theorem Presence.goOn {t : Thread} {routine : Routine} (inv : Presence state)
    (notLock : ∀ j reason after, state.routines t = .dropLock j reason after →
      state.registered j = false) : Presence (state.setRoutine t routine) := by
  refine inv.setRoutine ?_
  rintro other j rfl pc present
  rcases inv.expired other j pc present with ⟨reason, after, here⟩
  rw [notLock j reason after here] at present
  cases present

theorem Presence.setJob {j : JobId} {job : QueueJob} (inv : Presence state) :
    Presence (state.setJob j job) :=
  ⟨inv.present, inv.closed, inv.expired, inv.left⟩

theorem Presence.saveJob {ok : Bool} {job : QueueJob} (inv : Presence state) :
    Presence (state.saveJob ok job) :=
  ⟨inv.present, inv.closed, inv.expired, inv.left⟩

/-- The `run` goroutine of a job goes on, and does not undo its `finish`. -/
theorem Presence.setRun {j : JobId} {pc : RunPc} (inv : Presence state)
    (finished : (state.runs j).finished = true → pc.finished = true) :
    Presence (state.setRun j pc) := by
  refine ⟨?_, inv.closed, inv.expired, inv.left⟩
  intro k entered
  refine (inv.present k entered).imp_right fun gone => gone.imp_right ?_
  rcases eq_or_ne k j with rfl | other
  · simpa using finished
  · simp [other]

theorem Presence.setDrop {j : JobId} {pc : DropPc} (inv : Presence state)
    (dropped : pc ≠ .absent) : Presence (state.setDrop j pc) := by
  refine ⟨?_, inv.closed, inv.expired, inv.left⟩
  intro k entered
  refine (inv.present k entered).imp_right fun gone => gone.imp_left ?_
  intro before
  rcases eq_or_ne k j with rfl | other
  · simpa using dropped
  · simpa [other] using before

/-- A dropped or finished job leaves the map of waiters. -/
theorem Presence.unregister {j : JobId} (inv : Presence state)
    (gone : state.drops j ≠ .absent ∨ (state.runs j).finished = true) :
    Presence (state.setRegistered j false) := by
  have fewer : ∀ k, Function.update state.registered j false k = true →
      state.registered k = true := by
    intro k present
    have other : k ≠ j := by
      rintro rfl
      simp at present
    simpa [other] using present
  have out : ∀ k, state.registered k = false →
      Function.update state.registered j false k = false := by
    intro k absent
    by_contra present
    rw [fewer k (by simpa using present)] at absent
    cases absent
  refine ⟨?_, ?_, ?_, ?_⟩
  · intro k entered
    rcases eq_or_ne k j with rfl | other
    · exact Or.inr gone
    · simpa [other] using inv.present k entered
  · exact fun k closed => out k (inv.closed k closed)
  · exact fun other k pc present => inv.expired other k pc (fewer k present)
  · exact fun other k waiter leaves => out k (inv.left other k waiter leaves)

theorem Presence.complete {j : JobId} (inv : Presence state) (out : state.registered j = false) :
    Presence (state.complete j) := by
  refine ⟨inv.present, ?_, inv.expired, inv.left⟩
  intro k closed
  rcases eq_or_ne k j with rfl | other
  · exact out
  · exact inv.closed k (by simpa [other] using closed)

theorem Presence.send {response : Response} (inv : Presence state) :
    Presence (state.send c response) :=
  inv.setCall rfl (inv.expired c) (inv.left c)

theorem Presence.allocate {job : QueueJob} (inv : Presence state)
    (noWaiter : (state.calls c).waiter = none) : Presence (state.allocate c job) := by
  refine ⟨?_, inv.closed, inv.expired, inv.left⟩
  intro j entered
  rcases eq_or_ne j state.nextJob with rfl | other
  · simp [Entered, noWaiter] at entered
  · exact inv.present j (by simpa [Entered, other] using entered)

theorem Presence.register {j : JobId} (inv : Presence state) (owned : Ownership state)
    (pc : (state.calls c).pc = .register j) :
    Presence ((state.setRegistered j true).setCall c ((state.calls c).await j)) := by
  have joins : (state.calls c).pc.joins = some j := by rw [pc]; rfl
  have facts := (owned.calls c).joining j joins
  have outside := owned.joining_outside joins
  have notClosed := (owned.untouched outside).2.2.2.1
  refine ⟨?_, ?_, ?_, ?_⟩
  · intro k entered
    rcases eq_or_ne k j with rfl | different
    · exact Or.inl (by simp)
    · have before : Entered state.calls state.writer k := by
        simp only [Entered, State.setCall_calls, State.setRegistered_calls, State.setCall_writer,
          State.setRegistered_writer] at entered ⊢
        rcases eq_or_ne (state.writer k) c with same | otherCall
        · simp [same, different.symm] at entered
        · simpa [otherCall] using entered
      simpa [different] using inv.present k before
  · intro k isClosed
    have different : k ≠ j := by
      rintro rfl
      exact absurd isClosed (by simp [notClosed])
    simpa [different] using inv.closed k isClosed
  · intro other k
    rcases eq_or_ne other c with rfl | otherCall
    · simp
    · intro expired
      have before : (state.calls other).pc = .timeout k := by simpa [otherCall] using expired
      have different : k ≠ j := by
        rintro rfl
        have waiter := (owned.calls other).waits k (by rw [before]; rfl)
        exact otherCall (((owned.calls other).waiting k waiter).2.1.symm.trans facts.2.1)
      simpa [different] using inv.expired other k before
  · intro other k
    rcases eq_or_ne other c with rfl | otherCall
    · simp [CallPc.leaves]
    · intro waiter leaves
      have waits : (state.calls other).waiter = some k := by simpa [otherCall] using waiter
      have different : k ≠ j := by
        rintro rfl
        exact otherCall (((owned.calls other).waiting k waits).2.1.symm.trans facts.2.1)
      simpa [different] using inv.left other k waits (by simpa [otherCall] using leaves)

theorem Presence.handle {action : HandleStep} (inv : Presence state) (owned : Ownership state)
    (move : HandleMove limits state c action next) : Presence next := by
  have noWaiter : ∀ {pc : CallPc}, (state.calls c).pc = pc → pc.waits = none →
      pc.leaves = false → (state.calls c).waiter = none :=
    (owned.calls c).waiter_eq_none
  cases move with
  | arrive pc => exact inv.setCall rfl (by simp) (by simp [CallPc.leaves])
  | refused pc | full pc | notInserted pc => exact inv.answer (by simp [noWaiter pc rfl rfl])
  | toOverflow | accepted | overflowDirect | expire | notWaiting | overflowNotInserted =>
      exact inv.setPc (by simp) rfl
  | entered pc =>
      refine Presence.setRoutine (inv.setCall rfl (by simp) (by simp [CallPc.leaves])) ?_
      intro other j same expired
      cases same
      simp at expired
  | overflowSelect pc | insertSelect pc =>
      exact (inv.allocate (noWaiter pc rfl rfl)).setPc (by simp) rfl
  | overflowInserted | inserted =>
      exact Presence.setPc ⟨inv.present, inv.closed, inv.expired, inv.left⟩ (by simp) rfl
  | overflowNested => exact inv.setCall rfl (by simp) (by simp [CallPc.leaves])
  | @overflowForward j wrote result pc =>
      refine inv.setJob.setCall ?_ (by simp) (by simp [CallPc.leaves])
      cases wrote <;> rfl
  | overflowSave pc => exact inv.saveJob.setCall rfl (by simp) (by simp [noWaiter pc rfl rfl])
  | register pc =>
      refine (inv.register owned pc).setRoutine ?_
      intro other j same expired
      cases same
      simp at expired
  | @receive j pc idle closed =>
      refine inv.setCall rfl (by simp) ?_
      intro k waiter _
      have waits : (state.calls c).pc.waits = some j := by
        rcases pc with select | await
        · rw [select]; rfl
        · rw [await]; rfl
      rw [(owned.calls c).waits j waits, Option.some.injEq] at waiter
      exact waiter ▸ inv.closed j closed
  | @stillWaiting j pc free waiting =>
      have dropping : Presence (state.setRoutine (.call c) (.dropLock j "timeout" .timeout)) := by
        refine inv.setRoutine ?_
        intro other k same expired
        cases same
        simp [pc] at expired
      refine dropping.setCall rfl ?_ (by simp [CallPc.leaves])
      intro k expired _
      have same : j = k := by simpa using expired
      subst same
      exact ⟨"timeout", .timeout, by simp⟩
  | @answerTimeout j pc idle =>
      refine inv.answer ?_
      intro k waiter
      rw [(owned.calls c).waits j (by rw [pc]; rfl), Option.some.injEq] at waiter
      subst waiter
      by_contra present
      rcases inv.expired c j pc (by simpa using present) with ⟨reason, after, here⟩
      rw [idle] at here
      cases here
  | returned pc =>
      refine inv.setCall rfl (by simp) ?_
      intro k waiter _
      exact inv.left c k waiter (by rw [pc]; rfl)
  | @unwound ok j outer pc frames =>
      refine inv.setJob.saveJob.setCall rfl ?_ ?_
      · intro k expired
        simp [pc] at expired
      · intro k waiter _
        exact inv.left c k waiter (by rw [pc]; rfl)

theorem Presence.step {action : Action} (inv : Presence state) (consistent : Consistent state)
    (fires : step limits state action = some next) : Presence next := by
  cases action with
  | advance seconds | editQueues tables =>
      cases fires
      exact ⟨inv.present, inv.closed, inv.expired, inv.left⟩
  | handle c action => exact inv.handle consistent.owned (handle_moves fires)
  | dispatch t action =>
      have facts := consistent.slots.dispatchers t
      cases dispatch_moves fires with
      | found routine | missing routine | noWaiter routine | head routine | noStep routine
      | picked routine | retry routine => exact inv.goOn (by simp [routine])
      | checked routine | copy routine =>
          exact Presence.goOn ⟨inv.present, inv.closed, inv.expired, inv.left⟩ (by simp [routine])
      | @mark queue head pick routine =>
          rw [routine] at facts
          have marked : Presence ((state.setInflight pick.model (state.inflight pick.model + 1)).setJob
              head (markedJob pick (state.heap head))) :=
            ⟨inv.present, inv.closed, inv.expired, inv.left⟩
          refine (marked.setRun ?_).goOn (by simp [routine])
          simp [facts.2.2.2.2.1, RunPc.finished]
      | @save queue head copied ok routine =>
          rw [routine] at facts
          refine (inv.saveJob.setRun ?_).goOn (by simp [routine])
          simp [facts.2, RunPc.finished]
  | purge t action =>
      cases purge_moves fires with
      | above routine | under routine | queues routine | surplusDone routine | deleteDone routine
      | oldest routine | nextDone routine | next routine | surplus routine =>
          exact inv.goOn (by simp [routine])
      | aged routine | delete routine =>
          exact Presence.goOn ⟨inv.present, inv.closed, inv.expired, inv.left⟩ (by simp [routine])
      | @taken j reason after routine free present =>
          have dropped : Presence (state.setDrop j (.mark reason)) := inv.setDrop (by simp)
          refine (dropped.unregister (Or.inl (by simp))).goOn ?_
          simp [routine]
      | @notTaken j reason after routine free absent =>
          refine inv.goOn ?_
          simp [routine, absent]
      | dropMark => exact inv.setJob.setDrop (by simp)
      | dropCopy => exact inv.setDrop (by simp)
      | dropSave => exact inv.saveJob.setDrop (by simp)
      | @dropComplete j after routine pc =>
          have out := consistent.waiters.dropped j (by simp [pc])
          exact ((inv.complete out).setDrop (by simp)).goOn (by simp [routine])
  | run j action =>
      cases run_moves fires with
      | start pc =>
          have called : Presence (state.callForward j (state.heap j).assignedModel) :=
            ⟨inv.present, inv.closed, inv.expired, inv.left⟩
          exact called.setRun (by simp [pc, RunPc.finished])
      | write pc | fail pc => exact inv.send.setRun (by simp [pc, RunPc.finished])
      | failed pc | returned pc =>
          exact inv.setJob.setRun (by simp [pc, RunPc.finished])
      | release pc =>
          have released : Presence (state.setInflight (state.heap j).assignedModel
              (state.inflight (state.heap j).assignedModel - 1)) :=
            ⟨inv.present, inv.closed, inv.expired, inv.left⟩
          have finished := released.setRun (j := j) fun _ => (rfl : RunPc.finishCopy.finished = true)
          exact finished.unregister (Or.inr (by simp [RunPc.finished]))
      | noRelease pc =>
          have finished : Presence (state.setRun j .finishCopy) := inv.setRun fun _ => rfl
          exact finished.unregister (Or.inr (by simp [RunPc.finished]))
      | finishCopy pc => exact inv.setRun fun _ => rfl
      | finishSave pc => exact inv.saveJob.setRun fun _ => rfl
      | finishComplete pc =>
          have out := consistent.waiters.finished j (by simp [pc, RunPc.finished])
          refine Presence.setRoutine ((inv.complete out).setRun fun _ => rfl) ?_
          intro other k same
          cases same
  | loop action =>
      have moved : ∀ pc routine, Presence ((state.setLoop pc).setRoutine .loop routine) := by
        intro pc routine
        refine Presence.setRoutine ⟨inv.present, inv.closed, inv.expired, inv.left⟩ ?_
        intro other k same
        cases same
      cases loop_moves fires with
      | tick | next => exact moved _ _
      | list | done => exact ⟨inv.present, inv.closed, inv.expired, inv.left⟩

theorem presence_start {tables : QueueTables} {history : List QueueJob} {clock : ℕ} :
    Presence (start tables history clock) := by
  constructor <;> simp [start, Call.idle, Entered]

end Presence

section Jobs

variable {limits : Limits} {state next : State}

/-- A job keeps its queue and its number, and never waits again. -/
theorem heap_step {action : Action} {k : JobId} (fires : step limits state action = some next)
    (below : k < state.nextJob) :
    (next.heap k).queueId = (state.heap k).queueId ∧ (next.heap k).seq = (state.heap k).seq ∧
      ((next.heap k).status = .waiting → (state.heap k).status = .waiting) := by
  have same : ∀ heap : JobId → QueueJob, heap k = state.heap k →
      (heap k).queueId = (state.heap k).queueId ∧ (heap k).seq = (state.heap k).seq ∧
        ((heap k).status = .waiting → (state.heap k).status = .waiting) := by
    intro heap isSame
    simp [isSame]
  have changed : ∀ (j : JobId) (job : QueueJob), job.queueId = (state.heap j).queueId →
      job.seq = (state.heap j).seq → job.status ≠ .waiting →
      (Function.update state.heap j job k).queueId = (state.heap k).queueId ∧
        (Function.update state.heap j job k).seq = (state.heap k).seq ∧
          ((Function.update state.heap j job k).status = .waiting →
            (state.heap k).status = .waiting) := by
    intro j job queue seq status
    rcases eq_or_ne k j with rfl | other
    · simp [queue, seq, status]
    · simp [other]
  cases action with
  | advance seconds | editQueues tables => cases fires; exact same _ rfl
  | handle c action =>
      cases handle_moves fires with
      | overflowSelect | insertSelect => exact same _ (by simp [below.ne])
      | overflowForward => exact changed _ _ rfl rfl overflowJob_status_ne
      | unwound => exact changed _ _ rfl rfl (by simp [unwoundJob])
      | _ => exact same _ rfl
  | dispatch t action =>
      cases dispatch_moves fires with
      | mark => exact changed _ _ rfl rfl (by simp [markedJob])
      | _ => exact same _ rfl
  | purge t action =>
      cases purge_moves fires with
      | dropMark => exact changed _ _ rfl rfl (by simp [droppedJob])
      | _ => exact same _ rfl
  | run j action =>
      cases run_moves fires with
      | failed | returned => exact changed _ _ rfl rfl returnedJob_status_ne
      | _ => exact same _ rfl
  | loop action => cases loop_moves fires <;> exact same _ rfl

/-- A drop is not taken back. -/
theorem drops_step {action : Action} {k : JobId} (fires : step limits state action = some next)
    (dropped : state.drops k ≠ .absent) : next.drops k ≠ .absent := by
  have changed : ∀ j pc, pc ≠ DropPc.absent → Function.update state.drops j pc k ≠ .absent := by
    intro j pc present
    rcases eq_or_ne k j with rfl | other
    · simpa using present
    · simpa [other] using dropped
  cases action with
  | advance seconds | editQueues tables => cases fires; exact dropped
  | handle c action => cases handle_moves fires <;> exact dropped
  | dispatch t action => cases dispatch_moves fires <;> exact dropped
  | purge t action =>
      cases purge_moves fires with
      | taken | dropMark | dropCopy | dropSave | dropComplete => exact changed _ _ (by simp)
      | _ => exact dropped
  | run j action => cases run_moves fires <;> exact dropped
  | loop action => cases loop_moves fires <;> exact dropped

/-- A waiter that waits did so before, or is being registered. -/
theorem waiter_step {action : Action} {k : JobId} (consistent : Consistent state)
    (fires : step limits state action = some next) (present : next.registered k = true)
    (waits : (next.heap k).status = .waiting) :
    (state.registered k = true ∧ next.heap k = state.heap k) ∨
      ∃ c, action = .handle c .register ∧ (state.calls c).pc = .register k ∧
        next.heap k = state.heap k := by
  have owned := consistent.owned
  have changed : ∀ (j : JobId) (job : QueueJob), job.status ≠ .waiting →
      (Function.update state.heap j job k).status = .waiting →
        Function.update state.heap j job k = state.heap k := by
    intro j job status waiting
    have other : k ≠ j := by
      rintro rfl
      exact status (by simpa using waiting)
    simp [other]
  have fewer : ∀ j, Function.update state.registered j false k = true →
      state.registered k = true := by
    intro j here
    have other : k ≠ j := by
      rintro rfl
      simp at here
    simpa [other] using here
  cases action with
  | advance seconds | editQueues tables => cases fires; exact Or.inl ⟨present, rfl⟩
  | handle c action =>
      cases handle_moves fires with
      | overflowSelect | insertSelect =>
          have entered := owned.jobs.registered k present
          have other : k ≠ state.nextJob := ((owned.calls _).waiting k entered).1.ne
          exact Or.inl ⟨present, by simp [other]⟩
      | overflowForward => exact Or.inl ⟨present, changed _ _ overflowJob_status_ne waits⟩
      | unwound => exact Or.inl ⟨present, changed _ _ (by simp [unwoundJob]) waits⟩
      | @register j pc =>
          rcases eq_or_ne k j with rfl | other
          · exact Or.inr ⟨c, rfl, pc, rfl⟩
          · exact Or.inl ⟨by simpa [other] using present, rfl⟩
      | _ => exact Or.inl ⟨present, rfl⟩
  | dispatch t action =>
      cases dispatch_moves fires with
      | mark => exact Or.inl ⟨present, changed _ _ (by simp [markedJob]) waits⟩
      | _ => exact Or.inl ⟨present, rfl⟩
  | purge t action =>
      cases purge_moves fires with
      | taken => exact Or.inl ⟨fewer _ present, rfl⟩
      | dropMark => exact Or.inl ⟨present, changed _ _ (by simp [droppedJob]) waits⟩
      | _ => exact Or.inl ⟨present, rfl⟩
  | run j action =>
      cases run_moves fires with
      | failed | returned => exact Or.inl ⟨present, changed _ _ returnedJob_status_ne waits⟩
      | release | noRelease => exact Or.inl ⟨fewer _ present, rfl⟩
      | _ => exact Or.inl ⟨present, rfl⟩
  | loop action => cases loop_moves fires <;> exact Or.inl ⟨present, rfl⟩

/-- Only a call that has arrived does anything. -/
theorem arrived_step {action : Action} {callers : CallId} (consistent : Consistent state)
    (arrived : ∀ c, (state.calls c).pc ≠ .idle → c < callers)
    (arrives : ∀ c request, action = .handle c (.arrive request) → c < callers)
    (fires : step limits state action = some next) :
    ∀ c, (next.calls c).pc ≠ .idle → c < callers := by
  have changed : ∀ (c : CallId) (call : Call), c < callers → ∀ other,
      (Function.update state.calls c call other).pc ≠ .idle → other < callers := by
    intro c call below other present
    rcases eq_or_ne other c with rfl | different
    · exact below
    · exact arrived other (by simpa [different] using present)
  cases action with
  | advance seconds | editQueues tables => cases fires; exact arrived
  | handle c action =>
      cases handle_moves fires with
      | arrive pc => exact changed c _ (arrives c _ rfl)
      | receive pc =>
          refine changed c _ (arrived c ?_)
          rcases pc with select | await
          · simp [select]
          · simp [await]
      | _ => exact changed c _ (arrived c (by simp_all))
  | dispatch t action => cases dispatch_moves fires <;> exact arrived
  | purge t action => cases purge_moves fires <;> exact arrived
  | run j action =>
      cases run_moves fires with
      | write pc | fail pc =>
          refine changed _ _ (arrived _ ?_)
          intro idle
          have waiter := (consistent.owned.calls _).waiter_eq_none idle rfl rfl
          rw [consistent.owned.jobs.runs j (by simp [pc])] at waiter
          cases waiter
      | _ => exact arrived
  | loop action => cases loop_moves fires <;> exact arrived

end Jobs

end MikroLLM.Queue
