import MikroLLM.Queue.Agreement

/-!
# Wakeups

A registration and every `finish` are followed by a dispatch, of one queue. The
slots of a model are counted for all queues together, so a queue whose waiters
wait can miss a slot that a job of another queue gave back, until it is
dispatched again; the next tick of the loop does so. It misses no other slot.
-/

namespace MikroLLM.Queue

open Domain Store Library

/-- The goroutine is inside `dispatch`. -/
def Routine.dispatches : Routine → Bool
  | .dispatchEnter _ | .dispatchTop _ | .dispatchPick _ _ _ | .dispatchCheck _ _ _
  | .dispatchMark _ _ _ | .dispatchCopy _ _ | .dispatchSave _ _ _ => true
  | _ => false

/-- A call is inside a shared routine only where it called it. -/
def CallRoutine (pc : CallPc) (routine : Routine) : Prop :=
  routine = .idle ∨ (∃ j, pc = .select j) ∨
    (routine.dispatches = false ∧ (pc = .counts ∨ ∃ j, pc = .timeout j))

/-- Where goroutines can be inside the shared routines. -/
structure Callers (state : State) : Prop where
  calls : ∀ c, CallRoutine (state.calls c).pc (state.routines (.call c))
  runs : ∀ j, state.runs j ≠ .exited → state.routines (.run j) = .idle

/-- The dispatcher will find a step for a waiter of the queue, or has one in hand and comes back. -/
def Routine.attends (queueId : QueueId) (model : String) (cap : ℤ) : Routine → Prop
  | .dispatchEnter id => id = queueId
  | .dispatchPick queue _ snapshot => queue.id = queueId ∧ snapshot model < cap
  | .dispatchTop queue | .dispatchCheck queue _ _ | .dispatchMark queue _ _ | .dispatchCopy queue _
  | .dispatchSave queue _ _ => queue.id = queueId
  | _ => False

/-- `finish` has given the slot back and not dispatched yet. -/
def RunPc.finishing : RunPc → Bool
  | .finishCopy | .finishSave _ | .finishComplete => true
  | _ => false

/-- Some goroutine is about to look for a waiter of the queue. -/
def Attended (queueId : QueueId) (model : String) (cap : ℤ) (state : State) : Prop :=
  (∃ t, (state.routines t).attends queueId model cap) ∨
    ∃ j, (state.runs j).finishing = true ∧ (state.heap j).queueId = queueId

/-- A waiter of the queue waits although the model has a free slot. -/
def Starves (queueId : QueueId) (model : String) (cap : ℤ) (state : State) : Prop :=
  (∃ j, state.registered j = true ∧ (state.heap j).queueId = queueId ∧
    (state.heap j).status = .waiting) ∧ state.inflight model < cap

/-- The dispatcher of the queue has its look at the waiters ahead of it. -/
def Routine.looks (queueId : QueueId) : Routine → Bool
  | .dispatchEnter id => id = queueId
  | .dispatchTop queue => queue.id = queueId
  | _ => false

/-- A job of another queue gives back a slot of the model only while no waiter of the queue waits. -/
def releasesOwn (queueId : QueueId) (model : String) (state : State) : Action → Bool
  | .run j .finishLock =>
      (state.heap j).assignedModel ≠ model || (state.heap j).queueId = queueId ||
        state.count queueId .waiting = 0
  | _ => true

/-- `TryRoute` answers as `route` does, no operator edits the queues, and the loop rests. -/
def steady (route : String → Option (String × String)) : Action → Prop
  | .editQueues _ => False
  | .loop _ => False
  | .dispatch _ (.pick answers) => answers = route
  | _ => True

/-- The places of a call with no insertion or registration ahead: it waits, is inside `Forward`,
has not arrived or has returned. -/
def CallPc.rests : CallPc → Bool
  | .idle | .overflowForward _ | .select _ | .await _ | .returned => true
  | _ => false

/-- No step of an insertion, a dispatch, a purge, a `run` or a `finish` is pending. -/
structure Quiescent (state : State) : Prop where
  calls : ∀ c, (state.calls c).pc.rests = true
  routines : ∀ t, state.routines t = .idle
  runs : ∀ j, (state.runs j).settled = true

section Callers

variable {limits : Limits} {state next : State} {c : CallId}

theorem CallRoutine.idle {pc : CallPc} {routine : Routine} (place : CallRoutine pc routine)
    (notSelect : ∀ j, pc ≠ .select j) (notCounts : pc ≠ .counts)
    (notTimeout : ∀ j, pc ≠ .timeout j) : routine = .idle := by
  rcases place with idle | ⟨j, select⟩ | ⟨_, counts | ⟨j, timeout⟩⟩
  · exact idle
  · exact (notSelect j select).elim
  · exact (notCounts counts).elim
  · exact (notTimeout j timeout).elim

/-- A call goes on, and only it. -/
theorem Callers.setCall {call : Call} (inv : Callers state)
    (calls : next.calls = Function.update state.calls c call)
    (routines : next.routines = state.routines) (runs : next.runs = state.runs)
    (own : CallRoutine call.pc (state.routines (.call c))) : Callers next := by
  refine ⟨?_, ?_⟩
  · intro other
    rw [calls, routines]
    rcases eq_or_ne other c with rfl | different
    · simpa using own
    · simpa [different] using inv.calls other
  · rw [runs, routines]
    exact inv.runs

/-- A goroutine moves inside the routine it is in. -/
theorem Callers.setRoutine {t : Thread} {before after : Routine} (inv : Callers state)
    (here : state.routines t = before) (calls : next.calls = state.calls)
    (routines : next.routines = Function.update state.routines t after)
    (runs : ∀ j, next.runs j ≠ .exited → state.runs j ≠ .exited) (busy : before ≠ .idle)
    (kind : before.dispatches = false → after.dispatches = false) : Callers next := by
  refine ⟨?_, ?_⟩
  · intro other
    rw [calls, routines]
    rcases eq_or_ne (.call other) t with rfl | different
    · rcases inv.calls other with idle | select | ⟨notDispatch, place⟩
      · exact (busy (here.symm.trans idle)).elim
      · exact Or.inr (Or.inl select)
      · rw [here] at notDispatch
        exact Or.inr (Or.inr ⟨by simpa using kind notDispatch, place⟩)
    · simpa [different] using inv.calls other
  · intro j notExited
    have idle := inv.runs j (runs j notExited)
    have different : .run j ≠ t := by
      rintro rfl
      exact busy (here.symm.trans idle)
    rw [routines]
    simpa [different] using idle

theorem runs_update {runs : JobId → RunPc} {j : JobId} {pc : RunPc} (running : runs j ≠ .exited)
    (k : JobId) (notExited : Function.update runs j pc k ≠ .exited) : runs k ≠ .exited := by
  rcases eq_or_ne k j with rfl | other
  · exact running
  · simpa [other] using notExited

theorem Callers.setRun (inv : Callers state) (calls : ∀ c, (next.calls c).pc = (state.calls c).pc)
    (routines : next.routines = state.routines)
    (runs : ∀ j, next.runs j ≠ .exited → state.runs j ≠ .exited) : Callers next := by
  refine ⟨?_, ?_⟩
  · intro c
    rw [calls, routines]
    exact inv.calls c
  · intro j notExited
    rw [routines]
    exact inv.runs j (runs j notExited)

theorem Callers.handle {action : HandleStep} (inv : Callers state)
    (move : HandleMove limits state c action next) : Callers next := by
  have place := inv.calls c
  cases move with
  | entered pc =>
      refine ⟨?_, inv.runs⟩
      intro other
      rcases eq_or_ne other c with rfl | different
      · exact Or.inr (Or.inr ⟨by simp [Routine.dispatches], Or.inl (by simp)⟩)
      · simpa [different] using inv.calls other
  | @register j pc =>
      refine ⟨?_, inv.runs⟩
      intro other
      rcases eq_or_ne other c with rfl | different
      · exact Or.inr (Or.inl ⟨j, by simp⟩)
      · simpa [different] using inv.calls other
  | @stillWaiting j pc =>
      refine ⟨?_, inv.runs⟩
      intro other
      rcases eq_or_ne other c with rfl | different
      · exact Or.inr (Or.inr ⟨by simp [Routine.dispatches], Or.inr ⟨j, by simp⟩⟩)
      · simpa [different] using inv.calls other
  | unwound pc =>
      have idle := place.idle (by simp [pc]) (by simp [pc]) (by simp [pc])
      exact inv.setCall rfl rfl rfl (Or.inl idle)
  | toOverflow _ idle | full _ idle | accepted _ idle | receive _ idle | expire _ idle
  | answerTimeout _ idle => exact inv.setCall rfl rfl rfl (Or.inl idle)
  | arrive pc | refused pc | overflowSelect pc | overflowInserted pc | overflowNotInserted pc
  | overflowNested pc | overflowDirect pc | overflowForward pc | overflowSave pc | insertSelect pc
  | inserted pc | notInserted pc | notWaiting pc | returned pc =>
      have idle := place.idle (by simp [pc]) (by simp [pc]) (by simp [pc])
      exact inv.setCall rfl rfl rfl (Or.inl idle)

theorem afterDrop_dispatches {after : AfterDrop} :
    (afterDrop limits after).dispatches = false := by
  cases after with
  | timeout => rfl
  | purge rest jobs bytes =>
      simp only [afterDrop]
      split <;> rfl

theorem Callers.step {action : Action} (inv : Callers state) (consistent : Consistent state)
    (fires : step limits state action = some next) : Callers next := by
  have stays : ∀ j, state.runs j ≠ .exited → state.runs j ≠ .exited := fun _ running => running
  cases action with
  | advance seconds | editQueues tables => cases fires; exact ⟨inv.calls, inv.runs⟩
  | handle c action => exact inv.handle (handle_moves fires)
  | dispatch t action =>
      have facts := consistent.slots.dispatchers t
      cases dispatch_moves fires with
      | mark routine =>
          rw [routine] at facts
          refine inv.setRoutine routine rfl rfl (runs_update ?_) (by simp)
            (by simp [Routine.dispatches])
          simp [facts.2.2.2.2.1]
      | save routine =>
          rw [routine] at facts
          refine inv.setRoutine routine rfl rfl (runs_update ?_) (by simp)
            (by simp [Routine.dispatches])
          simp [facts.2]
      | found routine | missing routine | noWaiter routine | head routine | noStep routine
      | picked routine | retry routine | checked routine | copy routine =>
          exact inv.setRoutine routine rfl rfl stays (by simp) (by simp [Routine.dispatches])
  | purge t action =>
      cases purge_moves fires with
      | notTaken routine | dropComplete routine =>
          exact inv.setRoutine routine rfl rfl stays (by simp) fun _ => afterDrop_dispatches
      | dropMark | dropCopy | dropSave => exact ⟨inv.calls, inv.runs⟩
      | above routine | under routine | aged routine | queues routine | surplusDone routine
      | surplus routine | deleteDone routine | delete routine | oldest routine | nextDone routine
      | next routine | taken routine =>
          exact inv.setRoutine routine rfl rfl stays (by simp) fun _ => rfl
  | run j action =>
      cases run_moves fires with
      | start pc | failed pc | returned pc | release pc | noRelease pc | finishCopy pc
      | finishSave pc => exact inv.setRun (fun _ => rfl) rfl (runs_update (by simp [pc]))
      | write pc | fail pc =>
          refine inv.setRun ?_ rfl (runs_update (by simp [pc]))
          intro c
          rcases eq_or_ne c (state.writer j) with rfl | different
          · simp
          · simp [different]
      | finishComplete pc =>
          refine ⟨inv.calls, ?_⟩
          intro k notExited
          have other : k ≠ j := by
            rintro rfl
            exact notExited (by simp)
          simpa [other] using inv.runs k (by simpa [other] using notExited)
  | loop action => cases loop_moves fires <;> exact ⟨inv.calls, inv.runs⟩

theorem callers_start {tables : QueueTables} {history : List QueueJob} {clock : ℕ} :
    Callers (start tables history clock) :=
  ⟨fun _ => Or.inl rfl, fun _ _ => rfl⟩

end Callers

section Dispatchers

variable {limits : Limits} {state next : State} {queueId : QueueId} {model : String} {cap : ℤ}

theorem Routine.dispatches_of_attends {routine : Routine}
    (attends : routine.attends queueId model cap) : routine.dispatches = true := by
  cases routine <;> first | rfl | exact attends.elim

theorem Routine.attends_of_looks {routine : Routine} (looks : routine.looks queueId = true) :
    routine.attends queueId model cap := by
  cases routine with
  | dispatchEnter id | dispatchTop queue => simpa [Routine.looks, Routine.attends] using looks
  | _ => cases looks

/-- A waiter of the queue that waits is counted. -/
theorem count_waiting_ne_zero {j : JobId} (consistent : Consistent state)
    (present : state.registered j = true) (ofQueue : (state.heap j).queueId = queueId)
    (waits : (state.heap j).status = .waiting) : state.count queueId .waiting ≠ 0 := by
  have entered := consistent.owned.jobs.registered j present
  have below := ((consistent.owned.calls _).waiting j entered).1
  rw [State.count, Nat.count_ne_iff_exists]
  exact ⟨j, below, present, ofQueue, waits⟩

/-- A waiter of the queue that waits is among those a dispatcher sees. -/
theorem mem_waitingLocked {order : List JobId} {j : JobId} (consistent : Consistent state)
    (perm : order.Perm state.waiters) (present : state.registered j = true)
    (ofQueue : (state.heap j).queueId = queueId) (waits : (state.heap j).status = .waiting) :
    j ∈ state.waitingLocked queueId order := by
  have entered := consistent.owned.jobs.registered j present
  have below := ((consistent.owned.calls _).waiting j entered).1
  rw [State.waitingLocked, (exchangeSort_perm _).mem_iff, List.mem_filter, perm.mem_iff]
  simp [State.waiters, below, present, ofQueue, waits]

/-- A goroutine inside `dispatch` is moved by its own steps only. -/
theorem routine_step {action : Action} {t : Thread} (callers : Callers state)
    (noLoop : ∀ action', action ≠ .loop action')
    (fires : step limits state action = some next) :
    next.routines t = state.routines t ∨ (state.routines t).dispatches = false ∨
      ∃ action', action = .dispatch t action' := by
  have moved : ∀ {t' : Thread} {routine : Routine}, (state.routines t').dispatches = false →
      Function.update state.routines t' routine t = state.routines t ∨
        (state.routines t).dispatches = false := by
    intro t' routine outside
    rcases eq_or_ne t t' with rfl | different
    · exact Or.inr outside
    · exact Or.inl (by simp [different])
  cases action with
  | advance seconds | editQueues tables => cases fires; exact Or.inl rfl
  | handle c action =>
      have place := callers.calls c
      cases handle_moves fires with
      | entered pc | register pc | stillWaiting pc =>
          have idle := place.idle (by simp [pc]) (by simp [pc]) (by simp [pc])
          exact (moved (by simp [idle, Routine.dispatches])).imp_right Or.inl
      | _ => exact Or.inl rfl
  | dispatch t' action =>
      rcases eq_or_ne t t' with rfl | different
      · exact Or.inr (Or.inr ⟨action, rfl⟩)
      · left
        cases dispatch_moves fires <;> simp [different]
  | purge t' action =>
      cases purge_moves fires with
      | dropMark | dropCopy | dropSave => exact Or.inl rfl
      | above routine | under routine | aged routine | queues routine | surplusDone routine
      | surplus routine | deleteDone routine | delete routine | oldest routine | nextDone routine
      | next routine | taken routine | notTaken routine | dropComplete routine =>
          exact (moved (by simp [routine, Routine.dispatches])).imp_right Or.inl
  | run j action =>
      cases run_moves fires with
      | finishComplete pc =>
          have idle := callers.runs j (by simp [pc])
          exact (moved (by simp [idle, Routine.dispatches])).imp_right Or.inl
      | _ => exact Or.inl rfl
  | loop action => exact (noLoop action rfl).elim

/-- A job that gave its slot back is on its way to a dispatch of its queue. -/
theorem finishing_step {action : Action} {j : JobId} (consistent : Consistent state)
    (finishing : (state.runs j).finishing = true)
    (fires : step limits state action = some next) :
    (next.runs j).finishing = true ∨
      next.routines (.run j) = .dispatchEnter (state.heap j).queueId := by
  have others : ∀ k pc, (state.runs k).finishing = false →
      (Function.update state.runs k pc j).finishing = true := by
    intro k pc before
    have other : j ≠ k := by
      rintro rfl
      rw [before] at finishing
      cases finishing
    simpa [other] using finishing
  cases action with
  | advance seconds | editQueues tables => cases fires; exact Or.inl finishing
  | handle c action => cases handle_moves fires <;> exact Or.inl finishing
  | dispatch t action =>
      have facts := consistent.slots.dispatchers t
      cases dispatch_moves fires with
      | mark routine =>
          rw [routine] at facts
          exact Or.inl (others _ _ (by simp [facts.2.2.2.2.1, RunPc.finishing]))
      | save routine =>
          rw [routine] at facts
          exact Or.inl (others _ _ (by simp [facts.2, RunPc.finishing]))
      | _ => exact Or.inl finishing
  | purge t action => cases purge_moves fires <;> exact Or.inl finishing
  | run k action =>
      rcases eq_or_ne j k with rfl | other
      · cases run_moves fires with
        | finishComplete => exact Or.inr (by simp)
        | finishCopy | finishSave | release | noRelease =>
            exact Or.inl (by simp [RunPc.finishing])
        | start pc | write pc | failed pc | returned pc | fail pc =>
            simp [pc, RunPc.finishing] at finishing
      · left
        cases run_moves fires <;> simpa [other] using finishing
  | loop action => cases loop_moves fires <;> exact Or.inl finishing

end Dispatchers

section Wakeup

variable {limits : Limits} {tables : QueueTables} {route : String → Option (String × String)}
  {queueId : QueueId} {queue : Queue} {queueStep : QueueStep} {state next : State}

/-- What the wakeups of a queue rest on, for one of its steps. -/
structure Awake (tables : QueueTables) (queueId : QueueId) (queueStep : QueueStep)
    (state : State) : Prop where
  capped : Capped tables state
  callers : Callers state
  attended : Starves queueId queueStep.modelAlias (stepCap queueStep) state →
    Attended queueId queueStep.modelAlias (stepCap queueStep) state

/-- A dispatcher with a snapshot that shows a free slot of the step finds one. -/
theorem pickStep_ne_none {snapshot : String → ℤ} (stepMem : queueStep ∈ queue.steps)
    (free : snapshot queueStep.modelAlias < stepCap queueStep)
    (answers : route queueStep.modelAlias ≠ none) : pickStep queue snapshot route ≠ none := by
  intro none
  rw [pickStep, List.findSome?_eq_none_iff] at none
  have skipped := none queueStep stepMem
  rw [if_neg (not_le.mpr free), Option.map_eq_none_iff] at skipped
  exact answers skipped

/-- A dispatcher of the queue gives up only when no waiter starves. -/
theorem Awake.dispatch {t : Thread} {action : DispatchStep}
    (inv : Awake tables queueId queueStep state) (consistent : Consistent state)
    (found : tables.getQueue queueId = some queue) (stepMem : queueStep ∈ queue.steps)
    (answers : route queueStep.modelAlias ≠ none)
    (constant : steady route (.dispatch t action))
    (move : DispatchMove state t action next)
    (attends : (state.routines t).attends queueId queueStep.modelAlias (stepCap queueStep))
    (starves : Starves queueId queueStep.modelAlias (stepCap queueStep) next) :
    (next.routines t).attends queueId queueStep.modelAlias (stepCap queueStep) := by
  have facts := inv.capped.slots.dispatchers t
  cases move with
  | @found id loadedQueue routine loaded =>
      rw [routine] at attends
      have same : id = queueId := attends
      simpa [Routine.attends, same] using QueueTables.getQueue_id loaded
  | @missing id routine absent =>
      rw [routine] at attends
      have same : id = queueId := attends
      rw [same, inv.capped.fixed, found] at absent
      cases absent
  | @noWaiter order ofQueue routine free perm none =>
      rw [routine] at attends
      have same : ofQueue.id = queueId := attends
      rcases starves.1 with ⟨j, present, mine, waits⟩
      have listed := mem_waitingLocked consistent perm present mine waits
      rw [← same, none] at listed
      cases listed
  | head routine =>
      rw [routine] at attends
      simpa [Routine.attends] using ⟨attends, starves.2⟩
  | @noStep picked ofQueue head snapshot routine none =>
      rw [routine] at attends facts
      rcases facts.1 with ⟨id, known⟩
      have same : ofQueue = queue := by
        have isId : id = queueId := (QueueTables.getQueue_id known).symm.trans attends.1
        rw [isId, found, Option.some.injEq] at known
        exact known.symm
      subst same
      have isRoute : picked = route := constant
      subst isRoute
      exact (pickStep_ne_none stepMem attends.2 answers none).elim
  | picked routine =>
      rw [routine] at attends
      simpa [Routine.attends] using attends.1
  | retry routine | checked routine | mark routine | copy routine | save routine =>
      rw [routine] at attends
      simpa [Routine.attends] using attends

/-- A waiter that begins to starve finds a dispatch ahead. -/
theorem starves_step {action : Action} {model : String} {cap : ℤ} (consistent : Consistent state)
    (own : releasesOwn queueId model state action = true)
    (fires : step limits state action = some next) (starves : Starves queueId model cap next) :
    Starves queueId model cap state ∨ Attended queueId model cap next := by
  rcases starves with ⟨⟨j, present, ofQueue, waits⟩, free⟩
  rcases waiter_step consistent fires present waits with ⟨before, same⟩ | ⟨c, rfl, pc, heap⟩
  · have waiting : ∃ j, state.registered j = true ∧ (state.heap j).queueId = queueId ∧
        (state.heap j).status = .waiting := ⟨j, before, same ▸ ofQueue, same ▸ waits⟩
    cases action with
    | dispatch t action =>
        left
        cases dispatch_moves fires with
        | @mark queue head pick routine =>
            refine ⟨waiting, ?_⟩
            rcases eq_or_ne model pick.model with rfl | other
            · simp only [State.setRoutine_inflight, State.setRun_inflight, State.setJob_inflight,
                State.setInflight_inflight, Function.update_self] at free
              omega
            · simpa [other] using free
        | _ => exact ⟨waiting, free⟩
    | run k action =>
        cases run_moves fires with
        | release pc =>
            rcases eq_or_ne model (state.heap k).assignedModel with rfl | other
            · have counted : state.count queueId .waiting ≠ 0 :=
                count_waiting_ne_zero consistent before (same ▸ ofQueue) (same ▸ waits)
              have mine : (state.heap k).queueId = queueId := by
                simpa [releasesOwn, counted] using own
              exact Or.inr (Or.inr ⟨k, by simp [RunPc.finishing], by simpa using mine⟩)
            · exact Or.inl ⟨waiting, by simpa [other] using free⟩
        | _ => exact Or.inl ⟨waiting, free⟩
    | advance seconds | editQueues tables => cases fires; exact Or.inl ⟨waiting, free⟩
    | handle c action => cases handle_moves fires <;> exact Or.inl ⟨waiting, free⟩
    | purge t action => cases purge_moves fires <;> exact Or.inl ⟨waiting, free⟩
    | loop action => cases loop_moves fires <;> exact Or.inl ⟨waiting, free⟩
  · have joins : (state.calls c).pc.joins = some j := by rw [pc]; rfl
    have queue := ((consistent.owned.calls c).joining j joins).2.2.2.2.2
    have move : HandleMove limits state c .register next := handle_moves fires
    refine Or.inr (Or.inl ⟨.call c, ?_⟩)
    cases move with
    | register =>
        rw [heap, queue] at ofQueue
        simpa [Routine.attends] using ofQueue

theorem steady.noEdit {action : Action} (constant : steady route action) :
    action.editsQueues = false := by
  cases action with
  | editQueues tables => exact constant.elim
  | _ => rfl

/-- Every step leaves a starving waiter with a dispatch ahead. -/
theorem Awake.step {action : Action} (inv : Awake tables queueId queueStep state)
    (consistent : Consistent state) (found : tables.getQueue queueId = some queue)
    (stepMem : queueStep ∈ queue.steps) (answers : route queueStep.modelAlias ≠ none)
    (constant : steady route action)
    (own : releasesOwn queueId queueStep.modelAlias state action = true)
    (fires : Queue.step limits state action = some next) :
    Awake tables queueId queueStep next := by
  have noLoop : ∀ action', action ≠ .loop action' := by
    rintro action' rfl
    exact constant
  refine ⟨inv.capped.step constant.noEdit fires, inv.callers.step consistent fires, ?_⟩
  intro starves
  rcases starves_step consistent own fires starves with before | attended
  · rcases inv.attended before with ⟨t, attends⟩ | ⟨j, finishing, ofQueue⟩
    · rcases routine_step (t := t) inv.callers noLoop fires with same | outside | ⟨action', rfl⟩
      · exact Or.inl ⟨t, same ▸ attends⟩
      · rw [Routine.dispatches_of_attends attends] at outside
        cases outside
      · exact Or.inl ⟨t, inv.dispatch consistent found stepMem answers constant
          (dispatch_moves fires) attends starves⟩
    · rcases finishing_step consistent finishing fires with still | dispatching
      · have started : state.runs j ≠ .absent := by
          intro absent
          simp [absent, RunPc.finishing] at finishing
        have below := (consistent.slots.slots.dispatched j started).1
        exact Or.inr ⟨j, still, (heap_step fires below).1.trans ofQueue⟩
      · exact Or.inl ⟨.run j, by simpa [dispatching, Routine.attends] using ofQueue⟩
  · exact attended

/-- Nobody starves when no waiter of the queue waits, or a dispatcher of the queue has its look at
the waiters ahead. -/
theorem Awake.of_looked (consistent : Consistent state) (capped : Capped tables state)
    (callers : Callers state)
    (looked : state.count queueId .waiting = 0 ∨ ∃ t, (state.routines t).looks queueId = true) :
    Awake tables queueId queueStep state := by
  refine ⟨capped, callers, ?_⟩
  rintro ⟨⟨j, present, ofQueue, waits⟩, _⟩
  rcases looked with none | ⟨t, looks⟩
  · exact (count_waiting_ne_zero consistent present ofQueue waits none).elim
  · exact Or.inl ⟨t, Routine.attends_of_looks looks⟩

/-- No lost wakeup. In a quiescent state of a run with constant routes, without the loop, no waiter of
the queue waits while a step of it has a free slot and a route, if no job of another queue gave back a
slot of this model to waiters of the queue that wait: not since the start, or not since a later state
in which no waiter of the queue waited or a dispatcher of it had its look at the waiters ahead. -/
theorem no_lost_wakeup {history : List QueueJob} {clock : ℕ} {earlier later : List Action}
    {looking : State}
    (found : tables.getQueue queueId = some queue) (stepMem : queueStep ∈ queue.steps)
    (reached : Run (step limits) (fun _ _ => True) (start tables history clock) earlier looking)
    (looked : looking.count queueId .waiting = 0 ∨ ∃ t, (looking.routines t).looks queueId = true)
    (run : Run (step limits)
      (fun state action => releasesOwn queueId queueStep.modelAlias state action)
      looking later state)
    (constant : ∀ action ∈ earlier ++ later, steady route action) (quiescent : Quiescent state) :
    ¬∃ j, state.registered j = true ∧ (state.heap j).queueId = queueId ∧
      (state.heap j).status = .waiting ∧
        state.inflight queueStep.modelAlias < stepCap queueStep ∧
          route queueStep.modelAlias ≠ none := by
  rintro ⟨j, present, ofQueue, waits, free, answers⟩
  rw [List.forall_mem_append] at constant
  have capped : Capped tables looking := by
    refine invariant_of_run (reached.with_labels constant.1) capped_start ?_
    intro state next action _ capped admitted fires
    exact capped.step admitted.2.noEdit fires
  have callers : Callers looking := by
    refine invariant_of_run reached callers_start ?_
    intro state next action consistent callers _ fires
    exact callers.step consistent fires
  have consistent := consistent_of_run reached
  have inv : Awake tables queueId queueStep state := by
    refine (run.with_labels constant.2).invariant_under consistent Consistent.step
      (Awake.of_looked consistent capped callers looked) ?_
    intro state next action consistent inv admitted fires
    exact inv.step consistent found stepMem answers admitted.2 admitted.1 fires
  rcases inv.attended ⟨⟨j, present, ofQueue, waits⟩, free⟩ with ⟨t, attends⟩ | ⟨k, finishing, _⟩
  · rw [quiescent.routines t] at attends
    exact attends
  · have settled := quiescent.runs k
    cases pc : state.runs k <;> simp_all [RunPc.finishing, RunPc.settled]

end Wakeup

section Quiescence

variable {limits : Limits} {admits : State → Action → Prop} {tables : QueueTables}
  {history : List QueueJob} {clock : ℕ} {trace : List Action} {state : State}

def Routine.isIdle : Routine → Bool
  | .idle => true
  | _ => false

/-- A call with an identifier below the bound arrives, if any. -/
def Action.arrivesBelow (callers : CallId) : Action → Bool
  | .handle c (.arrive _) => c < callers
  | _ => true

/-- The facts of a quiescent state that can be evaluated. -/
def quiescentBelow (callers : CallId) (state : State) : Bool :=
  ((List.range callers).all fun c =>
    (state.calls c).pc.rests && (state.routines (.call c)).isIdle) &&
    ((List.range state.nextJob).all fun j =>
      (state.runs j).settled && (state.routines (.run j)).isIdle) &&
    (state.routines .loop).isIdle

theorem quiescent_of_run {callers : CallId}
    (run : Run (step limits) admits (start tables history clock) trace state)
    (arrivals : ∀ action ∈ trace, action.arrivesBelow callers = true)
    (below : quiescentBelow callers state = true) : Quiescent state := by
  have consistent := consistent_of_run run
  have inv : Callers state := by
    refine invariant_of_run run callers_start ?_
    intro state next action consistent inv _ fires
    exact inv.step consistent fires
  have arrived : ∀ c, (state.calls c).pc ≠ .idle → c < callers := by
    refine ((run.with_labels arrivals).invariant
      (fun state => Consistent state ∧ ∀ c, (state.calls c).pc ≠ .idle → c < callers)
      ⟨consistent_start, fun c present => (present rfl).elim⟩ ?_).2
    rintro state next action ⟨consistent, inv⟩ admitted fires
    refine ⟨consistent.step fires, arrived_step consistent inv ?_ fires⟩
    rintro c request rfl
    simpa [Action.arrivesBelow] using admitted.2
  have idle : ∀ routine : Routine, routine.isIdle = true → routine = .idle := by
    intro routine isIdle
    cases routine <;> first | rfl | cases isIdle
  simp only [quiescentBelow, Bool.and_eq_true, List.all_eq_true, List.mem_range] at below
  rcases below with ⟨⟨calls, jobs⟩, loop⟩
  have started : ∀ j, state.runs j ≠ .absent → j < state.nextJob :=
    fun j present => (consistent.slots.slots.dispatched j present).1
  refine ⟨?_, ?_, ?_⟩
  · intro c
    by_cases present : (state.calls c).pc = .idle
    · simp [present, CallPc.rests]
    · exact (calls c (arrived c present)).1
  · intro t
    cases t with
    | call c =>
        by_cases present : (state.calls c).pc = .idle
        · exact (inv.calls c).idle (by simp [present]) (by simp [present]) (by simp [present])
        · exact idle _ (calls c (arrived c present)).2
    | run j =>
        by_cases exited : state.runs j = .exited
        · exact idle _ (jobs j (started j (by simp [exited]))).2
        · exact inv.runs j exited
    | loop => exact idle _ loop
  · intro j
    by_cases present : state.runs j = .absent
    · simp [present, RunPc.settled]
    · exact (jobs j (started j present)).1

end Quiescence

/-- A store with two queues whose steps share a model that runs one job at once. -/
def sharedTables : QueueTables where
  queues := [⟨1, "itres", "coder", true, 0, "", 0⟩, ⟨2, "texts", "writer", true, 0, "", 0⟩]
  steps := [(1, ⟨0, "local", 1, local_ne⟩), (2, ⟨0, "local", 1, local_ne⟩)]
  aliases := []
  queues_id_nodup := by decide
  queues_alias_nodup := by decide
  aliases_nodup := List.nodup_nil
  aliases_owner := by decide

/-- Every model has a route. -/
def everyRoute : String → Option (String × String) := fun _ => some ("backend", "provider")

/-- The job of the first queue has the slot, and a job of the second queue waits for it. -/
def waitsForSlot : List Action :=
  let first : List DispatchStep :=
    [.top [0], .pick everyRoute, .check, .mark, .copy, .save true, .top [0]]
  let second : List DispatchStep := [.top [0, 1], .pick everyRoute]
  joins 0 ⟨"coder", "", "/v1/chat/completions", 10⟩ 0 ++ first.map (.dispatch (.call 0)) ++
    joins 1 ⟨"writer", "", "/v1/chat/completions", 10⟩ 1 ++ second.map (.dispatch (.call 1))

/-- The job with the slot finishes, and its queue is dispatched. -/
def givesBack : List Action :=
  let steps : List DispatchStep := [.enter, .top [1]]
  [.run 0 .start, .run 0 .write, .run 0 (.return ⟨"backend", "provider", 200, none⟩),
    .run 0 .finishLock, .run 0 .finishCopy, .run 0 (.finishSave true), .run 0 .finishComplete] ++
    steps.map (.dispatch (.run 0)) ++ [.handle 0 .receive, .handle 0 (.unwind true)]

/-- The queue of the job that waits for the slot is not dispatched. -/
def missesSlot : List Action :=
  waitsForSlot ++ givesBack

/-- Another job comes to the queue that missed the slot. -/
def comesLater : List Action :=
  missesSlot ++ joins 2 ⟨"writer", "", "/v1/chat/completions", 10⟩ 2

/-- The dispatcher of this job finds the slot for the one that missed it. -/
def findsSlot : List Action :=
  let steps : List DispatchStep :=
    [.top [1, 2], .pick everyRoute, .check, .mark, .copy, .save true, .top [1, 2], .pick everyRoute]
  steps.map (.dispatch (.call 2)) ++ [.run 1 .start]

theorem steady_missesSlot : ∀ action ∈ missesSlot, steady everyRoute action := by
  simp [missesSlot, waitsForSlot, givesBack, joins, quietPurge, steady]

theorem steady_findsSlot : ∀ action ∈ comesLater ++ findsSlot, steady everyRoute action := by
  simp [comesLater, findsSlot, missesSlot, waitsForSlot, givesBack, joins, quietPurge, steady]

set_option maxRecDepth 8000 in
/-- A job of the other queue gave back the slot while the first of two jobs waited, and the
registration of the second one finds it. -/
theorem no_lost_wakeup_writer :
    ∃ looking state queue, sharedTables.getQueue 2 = some queue ∧
      Run (step defaultLimits) (fun _ _ => True) (start sharedTables [] 0) comesLater looking ∧
      (looking.routines (.call 2)).looks 2 = true ∧
      Run (step defaultLimits) (fun state action => releasesOwn 2 "local" state action) looking
        findsSlot state ∧
      Quiescent state ∧ state.runs 1 = .inForward false ∧ state.count 2 .waiting = 1 ∧
      ¬∃ j, state.registered j = true ∧ (state.heap j).queueId = 2 ∧
        (state.heap j).status = .waiting ∧ state.inflight "local" < 1 ∧
          everyRoute "local" ≠ none := by
  have ran : ((exec (step defaultLimits) (start sharedTables [] 0) comesLater).bind fun looking =>
      (execWhen (step defaultLimits) (releasesOwn 2 "local") looking findsSlot).map fun state =>
        ((looking.routines (.call 2)).looks 2, quiescentBelow 3 state, state.runs 1,
          state.count 2 .waiting)) = some (true, true, .inForward false, 1) := by
    decide
  rcases Option.bind_eq_some_iff.mp ran with ⟨looking, came, ran⟩
  rcases Option.map_eq_some_iff.mp ran with ⟨state, executed, facts⟩
  simp only [Prod.mk.injEq] at facts
  rcases facts with ⟨looks, below, running, waiting⟩
  have reached := run_of_exec came
  have run := run_of_execWhen executed
  have whole := reached.append (run.mono fun _ _ _ => trivial)
  have quiescent : Quiescent state := quiescent_of_run whole (by decide) below
  have stepMem : (⟨0, "local", 1, by decide⟩ : QueueStep) ∈
      (sharedTables.loadQueueKids ⟨2, "texts", "writer", true, 0, "", 0⟩).steps := by decide
  exact ⟨looking, state, _, rfl, reached, looks, run, quiescent, running, waiting,
    no_lost_wakeup rfl stepMem reached (Or.inr ⟨_, looks⟩) run steady_findsSlot quiescent⟩

set_option maxRecDepth 8000 in
/-- A job of the first queue gives back the slot that a job of the second one waits for, and only
the first queue is dispatched. -/
theorem lost_wakeup :
    ∃ state queue queueStep, sharedTables.getQueue 2 = some queue ∧ queueStep ∈ queue.steps ∧
      Run (step defaultLimits) (fun _ _ => True) (start sharedTables [] 0) missesSlot state ∧
      (∀ action ∈ missesSlot, steady everyRoute action) ∧ Quiescent state ∧
      state.registered 1 = true ∧ (state.heap 1).queueId = 2 ∧
        (state.heap 1).status = .waiting ∧
          state.inflight queueStep.modelAlias < stepCap queueStep ∧
            everyRoute queueStep.modelAlias ≠ none := by
  have ran : ((exec (step defaultLimits) (start sharedTables [] 0) missesSlot).map fun state =>
      (quiescentBelow 2 state, state.registered 1, (state.heap 1).queueId, (state.heap 1).status,
        decide (state.inflight "local" < 1))) = some (true, true, 2, .waiting, true) := by
    decide
  rcases Option.map_eq_some_iff.mp ran with ⟨state, executed, facts⟩
  simp only [Prod.mk.injEq, decide_eq_true_eq] at facts
  rcases facts with ⟨below, present, ofQueue, waits, free⟩
  have run := run_of_exec executed
  refine ⟨state, sharedTables.loadQueueKids ⟨2, "texts", "writer", true, 0, "", 0⟩,
    ⟨0, "local", 1, by decide⟩, by decide, by decide, run, steady_missesSlot,
    quiescent_of_run run (by decide) below, present, ofQueue, waits, ?_, by decide⟩
  simpa [stepCap] using free

end MikroLLM.Queue
