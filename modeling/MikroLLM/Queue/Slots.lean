import MikroLLM.Library.Counting
import MikroLLM.Library.Runs
import MikroLLM.Queue.Moves

/-!
# Slot accounting

`inflight` counts, for each model, the jobs between the increment of `dispatch`
and the decrement of `finish`. A dispatcher chooses a step on a snapshot taken
outside the lock, but it compares the counter with the cap again in the critical
section that increments it, so no dispatcher can push the counter past a cap.
-/

namespace MikroLLM.Queue

open Domain Store Go Library

/-- Between the increment of `dispatch` and the decrement of `finish`. -/
def RunPc.holdsSlot : RunPc → Bool
  | .dispatched _ | .start | .inForward _ | .failing _ | .finishLock => true
  | .absent | .finishCopy | .finishSave _ | .finishComplete | .exited => false

/-- How many jobs hold a slot of a model. -/
def slotsHeld (runs : JobId → RunPc) (heap : JobId → QueueJob) (bound : JobId) (model : String) : ℕ :=
  Nat.count (fun j => (runs j).holdsSlot = true ∧ (heap j).assignedModel = model) bound

/-- The largest cap that a step of any queue gives a model; zero without such a step. -/
def largestCap (tables : QueueTables) (model : String) : ℤ :=
  (((tables.listQueues.flatMap (·.steps)).filter (·.modelAlias = model)).map stepCap).foldr max 0

/-- A pick that `pickStep` can make for a queue. -/
def Offers (queue : Queue) (pick : Pick) : Prop :=
  ∃ step ∈ queue.steps, pick.model = step.modelAlias ∧ pick.cap = stepCap step

structure SlotsCounted (inflight : String → ℤ) (runs : JobId → RunPc) (heap : JobId → QueueJob)
    (bound : JobId) : Prop where
  counted : ∀ model, inflight model = slotsHeld runs heap bound model
  dispatched : ∀ j, runs j ≠ .absent →
    j < bound ∧ (heap j).status ≠ .waiting ∧ (heap j).assignedModel ≠ ""

/-- What a dispatcher can rely on, by where it stands. Only the holder of the lock takes slots. -/
def DispatcherFacts (known : Queue → Prop) (lock : Option Thread) (inflight : String → ℤ)
    (runs : JobId → RunPc) (bound : JobId) (t : Thread) : Routine → Prop
  | .dispatchTop queue => known queue
  | .dispatchPick queue head _ => known queue ∧ head < bound
  | .dispatchCheck queue head pick => known queue ∧ head < bound ∧ Offers queue pick
  | .dispatchMark queue head pick =>
      known queue ∧ head < bound ∧ Offers queue pick ∧ lock = some t ∧ runs head = .absent ∧
        inflight pick.model < pick.cap
  | .dispatchCopy queue head => known queue ∧ lock = some t ∧ runs head = .dispatched t
  | .dispatchSave queue head _ => known queue ∧ runs head = .dispatched t
  | _ => True

/-- The invariant of slot accounting, for dispatchers of queues that are `known`. -/
structure SlotInvariant (known : Queue → Prop) (state : State) : Prop where
  slots : SlotsCounted state.inflight state.runs state.heap state.nextJob
  dispatchers : ∀ t, DispatcherFacts known state.lock state.inflight state.runs state.nextJob t
    (state.routines t)

section Counted

variable {inflight : String → ℤ} {runs : JobId → RunPc} {heap : JobId → QueueJob} {bound j : JobId}

/-- A change of a job that keeps its model and does not make it wait. -/
theorem SlotsCounted.setJob {job : QueueJob} (slots : SlotsCounted inflight runs heap bound)
    (model : job.assignedModel = (heap j).assignedModel) (status : job.status ≠ .waiting) :
    SlotsCounted inflight runs (Function.update heap j job) bound := by
  constructor
  · intro m
    rw [slots.counted m]
    congr 1
    apply count_congr
    intro k below
    rcases eq_or_ne k j with rfl | other
    · simp [model]
    · simp [other]
  · intro k present
    have facts := slots.dispatched k present
    rcases eq_or_ne k j with rfl | other
    · simpa [model] using ⟨facts.1, status, facts.2.2⟩
    · simpa [other] using facts

/-- A new job does not hold a slot. -/
theorem SlotsCounted.allocate {job : QueueJob} (slots : SlotsCounted inflight runs heap bound) :
    SlotsCounted inflight runs (Function.update heap bound job) (bound + 1) := by
  have fresh : runs bound = .absent := by
    by_contra present
    exact absurd (slots.dispatched bound present).1 (Nat.lt_irrefl bound)
  constructor
  · intro m
    have free : ¬((runs bound).holdsSlot = true ∧
        (Function.update heap bound job bound).assignedModel = m) := by
      simp [fresh, RunPc.holdsSlot]
    rw [slots.counted m, slotsHeld, slotsHeld, Nat.count_succ, if_neg free, Nat.add_zero]
    congr 1
    apply count_congr
    intro k below
    have other : k ≠ bound := by omega
    simp [other]
  · intro k present
    have facts := slots.dispatched k present
    have other : k ≠ bound := by
      rintro rfl
      exact present fresh
    refine ⟨Nat.lt_succ_of_lt facts.1, ?_⟩
    rw [Function.update_of_ne other]
    exact facts.2

/-- The `run` goroutine of a job moves on without taking or giving back a slot. -/
theorem SlotsCounted.setRun {pc : RunPc} (slots : SlotsCounted inflight runs heap bound)
    (present : runs j ≠ .absent) (same : pc.holdsSlot = (runs j).holdsSlot) :
    SlotsCounted inflight (Function.update runs j pc) heap bound := by
  constructor
  · intro m
    rw [slots.counted m]
    congr 1
    apply count_congr
    intro k below
    rcases eq_or_ne k j with rfl | other
    · simp [same]
    · simp [other]
  · intro k started
    rcases eq_or_ne k j with rfl | other
    · exact slots.dispatched k present
    · simp only [Function.update_of_ne other] at started
      exact slots.dispatched k started

/-- The increment of `dispatch`. -/
theorem SlotsCounted.take {job : QueueJob} {t : Thread} {model : String}
    (slots : SlotsCounted inflight runs heap bound) (below : j < bound) (absent : runs j = .absent)
    (assigned : job.assignedModel = model) (named : model ≠ "") (running : job.status = .running) :
    SlotsCounted (Function.update inflight model (inflight model + 1))
      (Function.update runs j (.dispatched t)) (Function.update heap j job) bound := by
  constructor
  · intro m
    rcases eq_or_ne m model with rfl | otherModel
    · rw [Function.update_self, slots.counted m]
      have grown : slotsHeld (Function.update runs j (.dispatched t)) (Function.update heap j job)
          bound m = slotsHeld runs heap bound m + 1 := by
        apply count_insert below
        · simp [absent, RunPc.holdsSlot]
        · simp [RunPc.holdsSlot, assigned]
        · intro k other
          simp [other]
      rw [grown]
      push_cast
      rfl
    · rw [Function.update_of_ne otherModel, slots.counted m]
      congr 1
      apply count_congr
      intro k _
      rcases eq_or_ne k j with rfl | other
      · simp [absent, RunPc.holdsSlot, assigned, otherModel.symm]
      · simp [other]
  · intro k started
    rcases eq_or_ne k j with rfl | other
    · simp [below, running, assigned, named]
    · simp only [Function.update_of_ne other] at started ⊢
      exact slots.dispatched k started

/-- A job that holds a slot is counted. -/
theorem SlotsCounted.held (slots : SlotsCounted inflight runs heap bound)
    (holds : (runs j).holdsSlot = true) : 0 < inflight (heap j).assignedModel := by
  have present : runs j ≠ .absent := by
    intro absent
    simp [absent, RunPc.holdsSlot] at holds
  rw [slots.counted]
  have below := (slots.dispatched j present).1
  have positive : 0 < slotsHeld runs heap bound (heap j).assignedModel := by
    apply Nat.lt_of_le_of_lt (Nat.zero_le _)
    exact Nat.count_strict_mono ⟨holds, rfl⟩ below
  exact_mod_cast positive

/-- The decrement of `finish`. -/
theorem SlotsCounted.release {pc : RunPc} (slots : SlotsCounted inflight runs heap bound)
    (holds : (runs j).holdsSlot = true) (released : pc.holdsSlot = false) :
    SlotsCounted (Function.update inflight (heap j).assignedModel
      (inflight (heap j).assignedModel - 1)) (Function.update runs j pc) heap bound := by
  have present : runs j ≠ .absent := by
    intro absent
    simp [absent, RunPc.holdsSlot] at holds
  constructor
  · intro m
    rcases eq_or_ne m (heap j).assignedModel with rfl | otherModel
    · rw [Function.update_self, slots.counted]
      have shrunk : slotsHeld runs heap bound (heap j).assignedModel =
          slotsHeld (Function.update runs j pc) heap bound (heap j).assignedModel + 1 := by
        apply count_remove (slots.dispatched j present).1 ⟨holds, rfl⟩
        · simp [released]
        · intro k other
          simp [other]
      rw [shrunk]
      push_cast
      omega
    · rw [Function.update_of_ne otherModel, slots.counted]
      congr 1
      apply count_congr
      intro k _
      rcases eq_or_ne k j with rfl | other
      · simp [released, otherModel.symm]
      · simp [other]
  · intro k started
    rcases eq_or_ne k j with rfl | other
    · exact slots.dispatched k present
    · simp only [Function.update_of_ne other] at started
      exact slots.dispatched k started

end Counted

section Dispatchers

variable {known : Queue → Prop} {lock : Option Thread} {inflight : String → ℤ}
  {runs : JobId → RunPc} {bound : JobId} {routines : Thread → Routine} {t : Thread}

theorem dispatchers_update {routine : Routine}
    (facts : ∀ t, DispatcherFacts known lock inflight runs bound t (routines t))
    (own : DispatcherFacts known lock inflight runs bound t routine) (other : Thread) :
    DispatcherFacts known lock inflight runs bound other (Function.update routines t routine other) := by
  rcases eq_or_ne other t with rfl | different
  · simpa using own
  · simpa [different] using facts other

theorem dispatcherFacts_afterDrop {limits : Limits} {after : AfterDrop} :
    DispatcherFacts known lock inflight runs bound t (afterDrop limits after) := by
  cases after with
  | timeout => trivial
  | purge rest jobs bytes =>
      simp only [afterDrop]
      split <;> trivial

/-- Facts of a dispatcher survive a step that respects the lock it holds and the jobs it has
dispatched. -/
theorem DispatcherFacts.mono {lock' : Option Thread} {inflight' : String → ℤ}
    {runs' : JobId → RunPc} {bound' : JobId} {routine : Routine}
    (facts : DispatcherFacts known lock inflight runs bound t routine) (more : bound ≤ bound')
    (held : lock = some t → lock' = some t ∧ inflight' = inflight ∧
      ∀ j, runs j = .absent → runs' j = .absent)
    (own : ∀ j, runs j = .dispatched t → runs' j = .dispatched t) :
    DispatcherFacts known lock' inflight' runs' bound' t routine := by
  cases routine with
  | dispatchPick queue head snapshot => exact ⟨facts.1, facts.2.trans_le more⟩
  | dispatchCheck queue head pick => exact ⟨facts.1, facts.2.1.trans_le more, facts.2.2⟩
  | dispatchMark queue head pick =>
      rcases facts with ⟨isKnown, below, offered, holder, absent, slot⟩
      rcases held holder with ⟨holder', same, kept⟩
      exact ⟨isKnown, below.trans_le more, offered, holder', kept head absent, by rwa [same]⟩
  | dispatchCopy queue head =>
      rcases facts with ⟨isKnown, holder, mine⟩
      exact ⟨isKnown, (held holder).1, own head mine⟩
  | dispatchSave queue head copied => exact ⟨facts.1, own head facts.2⟩
  | _ => exact facts

/-- One goroutine moves on; what it changes is no business of the other dispatchers. -/
theorem dispatchers_step {lock' : Option Thread} {inflight' : String → ℤ} {runs' : JobId → RunPc}
    {bound' : JobId} {routine : Routine}
    (facts : ∀ t, DispatcherFacts known lock inflight runs bound t (routines t))
    (own : DispatcherFacts known lock' inflight' runs' bound' t routine) (more : bound ≤ bound')
    (held : ∀ other ≠ t, lock = some other → lock' = some other ∧ inflight' = inflight ∧
      ∀ j, runs j = .absent → runs' j = .absent)
    (kept : ∀ other ≠ t, ∀ j, runs j = .dispatched other → runs' j = .dispatched other)
    (other : Thread) :
    DispatcherFacts known lock' inflight' runs' bound' other
      (Function.update routines t routine other) := by
  rcases eq_or_ne other t with rfl | different
  · simpa using own
  · rw [Function.update_of_ne different]
    exact (facts other).mono more (held other different) (kept other different)

theorem offers_of_pickStep {queue : Queue} {snapshot : String → ℤ}
    {route : String → Option (String × String)} {pick : Pick}
    (chosen : pickStep queue snapshot route = some pick) : Offers queue pick := by
  rcases List.exists_of_findSome?_eq_some chosen with ⟨step, stepMem, taken⟩
  split at taken
  · cases taken
  · rcases Option.map_eq_some_iff.mp taken with ⟨answer, _, rfl⟩
    exact ⟨step, stepMem, rfl, rfl⟩

theorem Offers.model_ne {queue : Queue} {pick : Pick} (offered : Offers queue pick) :
    pick.model ≠ "" := by
  rcases offered with ⟨step, _, model, _⟩
  rw [model]
  exact step.modelAlias_ne

end Dispatchers

section Steps

variable {limits : Limits} {known : Queue → Prop} {state next : State}

theorem lt_nextJob_of_waitingLocked {queueId : QueueId} {order others : List JobId} {head : JobId}
    (perm : order.Perm state.waiters)
    (first : state.waitingLocked queueId order = head :: others) :
    head < state.nextJob ∧ state.registered head = true ∧
      (state.heap head).queueId = queueId ∧ (state.heap head).status = .waiting := by
  have listed : head ∈ state.waitingLocked queueId order := by simp [first]
  rw [State.waitingLocked, (exchangeSort_perm _).mem_iff, List.mem_filter, perm.mem_iff] at listed
  simpa [State.waiters, and_assoc] using listed

theorem overflowJob_status_ne {clock : ℕ} {job : QueueJob} {result : Forwarded} :
    (overflowJob clock job result).status ≠ .waiting := by
  simp only [overflowJob]
  split
  · simp
  · split <;> simp

/-- A step that touches neither the counters nor the jobs that were dispatched. -/
theorem SlotInvariant.handle {c : CallId} {action : HandleStep} (inv : SlotInvariant known state)
    (move : HandleMove limits state c action next) : SlotInvariant known next := by
  cases move with
  | entered | register | stillWaiting =>
      exact ⟨inv.slots, dispatchers_update inv.dispatchers trivial⟩
  | overflowSelect | insertSelect =>
      refine ⟨inv.slots.allocate, ?_⟩
      intro t
      exact (inv.dispatchers t).mono (Nat.le_succ _) (fun holder => ⟨holder, rfl, fun _ absent => absent⟩)
        fun _ mine => mine
  | overflowForward => exact ⟨inv.slots.setJob rfl overflowJob_status_ne, inv.dispatchers⟩
  | unwound => exact ⟨inv.slots.setJob rfl (by simp [unwoundJob]), inv.dispatchers⟩
  | _ => exact ⟨inv.slots, inv.dispatchers⟩

/-- The steps of `dispatch`: only `mark` takes a slot, and it holds the lock. -/
theorem SlotInvariant.dispatch {t : Thread} {action : DispatchStep}
    (inv : SlotInvariant known state)
    (knows : ∀ id queue, state.tables.getQueue id = some queue → known queue)
    (move : DispatchMove state t action next) : SlotInvariant known next := by
  have here := inv.dispatchers t
  cases move with
  | found routine loaded =>
      exact ⟨inv.slots, dispatchers_update inv.dispatchers (knows _ _ loaded)⟩
  | missing routine | noWaiter routine | noStep routine =>
      exact ⟨inv.slots, dispatchers_update inv.dispatchers trivial⟩
  | head routine free perm first =>
      rw [routine] at here
      have below := (lt_nextJob_of_waitingLocked perm first).1
      exact ⟨inv.slots, dispatchers_update inv.dispatchers ⟨here, below⟩⟩
  | picked routine chosen =>
      rw [routine] at here
      exact ⟨inv.slots, dispatchers_update inv.dispatchers
        ⟨here.1, here.2, offers_of_pickStep chosen⟩⟩
  | retry routine =>
      rw [routine] at here
      exact ⟨inv.slots, dispatchers_update inv.dispatchers here.1⟩
  | @checked queue head pick routine free waiting slot =>
      rw [routine] at here
      have absent : state.runs head = .absent := by
        by_contra present
        exact (inv.slots.dispatched head present).2.1 waiting
      refine ⟨inv.slots, dispatchers_step inv.dispatchers
        ⟨here.1, here.2.1, here.2.2, rfl, absent, slot⟩ le_rfl ?_ fun _ _ _ mine => mine⟩
      intro other _ holder
      rw [free] at holder
      cases holder
  | @mark queue head pick routine =>
      rw [routine] at here
      rcases here with ⟨isKnown, below, offered, holder, absent, slot⟩
      refine ⟨inv.slots.take below absent rfl offered.model_ne rfl,
        dispatchers_step inv.dispatchers ⟨isKnown, holder, ?_⟩ le_rfl ?_ ?_⟩
      · simp
      · intro other different otherHolder
        rw [holder, Option.some.injEq] at otherHolder
        exact (different otherHolder.symm).elim
      · intro other _ j mine
        have otherJob : j ≠ head := by
          rintro rfl
          rw [absent] at mine
          cases mine
        simpa [otherJob] using mine
  | @copy queue head routine =>
      rw [routine] at here
      rcases here with ⟨isKnown, holder, mine⟩
      refine ⟨inv.slots, dispatchers_step inv.dispatchers ⟨isKnown, mine⟩ le_rfl ?_
        fun _ _ _ mine => mine⟩
      intro other different otherHolder
      rw [holder, Option.some.injEq] at otherHolder
      exact (different otherHolder.symm).elim
  | @save queue head copied ok routine =>
      rw [routine] at here
      rcases here with ⟨isKnown, mine⟩
      refine ⟨inv.slots.setRun (by simp [mine]) (by simp [mine, RunPc.holdsSlot]),
        dispatchers_step inv.dispatchers isKnown le_rfl ?_ ?_⟩
      · intro other _ holder
        refine ⟨holder, rfl, ?_⟩
        intro j absent
        have otherJob : j ≠ head := by
          rintro rfl
          rw [mine] at absent
          cases absent
        simpa [otherJob] using absent
      · intro other different j theirs
        have otherJob : j ≠ head := by
          rintro rfl
          rw [mine, RunPc.dispatched.injEq] at theirs
          exact different theirs.symm
        simpa [otherJob] using theirs

/-- The steps of the purge neither dispatch nor finish a job. -/
theorem SlotInvariant.purge {t : Thread} {action : PurgeStep} (inv : SlotInvariant known state)
    (move : PurgeMove limits state t action next) : SlotInvariant known next := by
  cases move with
  | notTaken | dropComplete =>
      exact ⟨inv.slots, dispatchers_update inv.dispatchers dispatcherFacts_afterDrop⟩
  | dropMark => exact ⟨inv.slots.setJob rfl (by simp [droppedJob]), inv.dispatchers⟩
  | dropCopy | dropSave => exact ⟨inv.slots, inv.dispatchers⟩
  | _ => exact ⟨inv.slots, dispatchers_update inv.dispatchers trivial⟩

/-- A dispatched job moves on, and no dispatcher is concerned. -/
theorem dispatchers_run {j : JobId} {pc : RunPc} (inv : SlotInvariant known state)
    (left : state.runs j ≠ .absent) (notDispatched : ∀ t, state.runs j ≠ .dispatched t) (t : Thread) :
    DispatcherFacts known state.lock state.inflight (Function.update state.runs j pc) state.nextJob t
      (state.routines t) := by
  refine (inv.dispatchers t).mono le_rfl ?_ ?_
  · intro holder
    refine ⟨holder, rfl, ?_⟩
    intro k absent
    have other : k ≠ j := by
      rintro rfl
      exact left absent
    simpa [other] using absent
  · intro k mine
    have other : k ≠ j := by
      rintro rfl
      exact notDispatched t mine
    simpa [other] using mine

theorem returnedJob_status_ne {clock : ℕ} {job : QueueJob} {wrote : Bool} {result : Forwarded} :
    (returnedJob clock job wrote result).status ≠ .waiting := by
  simp only [returnedJob]
  split
  · simp
  · split <;> simp

/-- The steps of `run` and `finish`: the decrement is always made, and only by a job that holds
a slot. -/
theorem SlotInvariant.run {j : JobId} {action : RunStep} (inv : SlotInvariant known state)
    (move : RunMove state j action next) : SlotInvariant known next := by
  cases move with
  | start pc | write pc | fail pc | finishCopy pc | finishSave pc =>
      exact ⟨inv.slots.setRun (by simp [pc]) (by simp [pc, RunPc.holdsSlot]),
        dispatchers_run inv (by simp [pc]) (by simp [pc])⟩
  | failed pc | returned pc =>
      refine ⟨SlotsCounted.setJob ?_ rfl returnedJob_status_ne,
        dispatchers_run inv (by simp [pc]) (by simp [pc])⟩
      exact inv.slots.setRun (by simp [pc]) (by simp [pc, RunPc.holdsSlot])
  | release pc free model held =>
      refine ⟨inv.slots.release (by simp [pc, RunPc.holdsSlot]) rfl, ?_⟩
      intro t
      refine (dispatchers_run inv (by simp [pc]) (by simp [pc]) t).mono le_rfl ?_ fun _ mine => mine
      intro holder
      rw [free] at holder
      cases holder
  | noRelease pc free none =>
      have held := inv.slots.held (j := j) (by simp [pc, RunPc.holdsSlot])
      exact (none ⟨(inv.slots.dispatched j (by simp [pc])).2.2, held⟩).elim
  | finishComplete pc =>
      exact ⟨inv.slots.setRun (by simp [pc]) (by simp [pc, RunPc.holdsSlot]),
        dispatchers_update (dispatchers_run inv (by simp [pc]) (by simp [pc])) trivial⟩

theorem SlotInvariant.loop {action : LoopStep} (inv : SlotInvariant known state)
    (move : LoopMove state action next) : SlotInvariant known next := by
  cases move with
  | tick | next => exact ⟨inv.slots, dispatchers_update inv.dispatchers trivial⟩
  | list | done => exact ⟨inv.slots, inv.dispatchers⟩

/-- Only the holder of the lock switches a job to running. -/
theorem SlotInvariant.not_marking {t : Thread} {queue : Queue} {head : JobId} {pick : Pick}
    (inv : SlotInvariant known state) (free : state.lock = none) :
    state.routines t ≠ .dispatchMark queue head pick := by
  intro marks
  have facts := inv.dispatchers t
  rw [marks] at facts
  have holder := facts.2.2.2.1
  rw [free] at holder
  cases holder

/-- Every step keeps the slot invariant. -/
theorem SlotInvariant.step {action : Action} (inv : SlotInvariant known state)
    (knows : ∀ id queue, state.tables.getQueue id = some queue → known queue)
    (fires : step limits state action = some next) : SlotInvariant known next := by
  cases action with
  | advance seconds => cases fires; exact ⟨inv.slots, inv.dispatchers⟩
  | editQueues tables => cases fires; exact ⟨inv.slots, inv.dispatchers⟩
  | handle c action => exact inv.handle (handle_moves fires)
  | dispatch t action => exact inv.dispatch knows (dispatch_moves fires)
  | purge t action => exact inv.purge (purge_moves fires)
  | run j action => exact inv.run (run_moves fires)
  | loop action => exact inv.loop (loop_moves fires)

theorem slotInvariant_start {tables : QueueTables} {history : List QueueJob} {clock : ℕ} :
    SlotInvariant known (start tables history clock) := by
  refine ⟨⟨?_, ?_⟩, fun _ => trivial⟩
  · intro m
    simp [start, slotsHeld, RunPc.holdsSlot, Nat.count_false]
  · intro j present
    exact (present rfl).elim

/-- A job that was dispatched stays so. -/
theorem runs_ne_absent {action : Action} {j : JobId} (fires : step limits state action = some next)
    (present : state.runs j ≠ .absent) : next.runs j ≠ .absent := by
  have moved : ∀ k pc, pc ≠ RunPc.absent → Function.update state.runs k pc j ≠ .absent := by
    intro k pc running
    rcases eq_or_ne j k with rfl | other
    · simpa using running
    · simpa [other] using present
  cases action with
  | advance seconds => cases fires; exact present
  | editQueues tables => cases fires; exact present
  | handle c action => cases handle_moves fires <;> exact present
  | dispatch t action =>
      cases dispatch_moves fires with
      | mark | save => exact moved _ _ (by simp)
      | _ => exact present
  | purge t action => cases purge_moves fires <;> exact present
  | run k action => cases run_moves fires <;> exact moved _ _ (by simp)
  | loop action => cases loop_moves fires <;> exact present

theorem runs_ne_absent_of_run {admits : State → Action → Prop} {first last : State}
    {trace : List Action} {j : JobId} (run : Run (Queue.step limits) admits first trace last)
    (present : first.runs j ≠ .absent) : last.runs j ≠ .absent := by
  refine run.invariant (fun state => state.runs j ≠ .absent) present ?_
  intro state next action kept _ fires
  exact runs_ne_absent fires kept

theorem stepCap_le_largestCap {tables : QueueTables} {id : QueueId} {queue : Queue}
    {queueStep : QueueStep} (found : tables.getQueue id = some queue)
    (stepMem : queueStep ∈ queue.steps) :
    stepCap queueStep ≤ largestCap tables queueStep.modelAlias := by
  have listed : queue ∈ tables.listQueues := by
    rcases Option.map_eq_some_iff.mp found with ⟨row, rowFound, rfl⟩
    apply List.mem_map_of_mem
    exact (List.mem_insertionSort _).mpr (List.mem_of_find?_eq_some rowFound)
  have capMem : stepCap queueStep ∈
      ((tables.listQueues.flatMap (·.steps)).filter (·.modelAlias = queueStep.modelAlias)).map
        stepCap := by
    apply List.mem_map_of_mem
    rw [List.mem_filter]
    exact ⟨List.mem_flatMap.mpr ⟨queue, listed, stepMem⟩, by simp⟩
  have bounded : ∀ {caps : List ℤ} {cap : ℤ}, cap ∈ caps → cap ≤ caps.foldr max 0 := by
    intro caps cap capMem
    induction caps with
    | nil => cases capMem
    | cons first rest ih =>
        rcases List.mem_cons.mp capMem with rfl | later
        · exact le_max_left _ _
        · exact (ih later).trans (le_max_right _ _)
  exact bounded capMem

/-- No counter passes the largest cap of its model while the queues stay as they are. -/
structure Capped (tables : QueueTables) (state : State) : Prop where
  slots : SlotInvariant (fun queue => ∃ id, tables.getQueue id = some queue) state
  fixed : state.tables = tables
  capped : ∀ model, state.inflight model ≤ largestCap tables model

theorem Capped.step {tables : QueueTables} {action : Action} (inv : Capped tables state)
    (noEdit : action.editsQueues = false) (fires : Queue.step limits state action = some next) :
    Capped tables next := by
  refine ⟨inv.slots.step ?_ fires, ?_, ?_⟩
  · intro id queue found
    exact ⟨id, inv.fixed ▸ found⟩
  · cases action with
    | advance seconds => cases fires; exact inv.fixed
    | editQueues tables => cases noEdit
    | handle c action => cases handle_moves fires <;> exact inv.fixed
    | dispatch t action => cases dispatch_moves fires <;> exact inv.fixed
    | purge t action => cases purge_moves fires <;> exact inv.fixed
    | run k action => cases run_moves fires <;> exact inv.fixed
    | loop action => cases loop_moves fires <;> exact inv.fixed
  · intro model
    cases action with
    | advance seconds => cases fires; exact inv.capped model
    | editQueues tables => cases noEdit
    | handle c action => cases handle_moves fires <;> exact inv.capped model
    | dispatch t action =>
        cases dispatch_moves fires with
        | @mark queue head pick routine =>
            have here := inv.slots.dispatchers t
            rw [routine] at here
            rcases here with ⟨⟨id, found⟩, _, ⟨queueStep, stepMem, named, cap⟩, _, _, slot⟩
            rcases eq_or_ne model pick.model with rfl | other
            · have largest := stepCap_le_largestCap found stepMem
              rw [← named, ← cap] at largest
              simp
              omega
            · simpa [other] using inv.capped model
        | _ => exact inv.capped model
    | purge t action => cases purge_moves fires <;> exact inv.capped model
    | run k action =>
        cases run_moves fires with
        | release =>
            rcases eq_or_ne model (state.heap k).assignedModel with rfl | other
            · have before := inv.capped (state.heap k).assignedModel
              simp
              omega
            · simpa [other] using inv.capped model
        | _ => exact inv.capped model
    | loop action => cases loop_moves fires <;> exact inv.capped model

theorem capped_start {tables : QueueTables} {history : List QueueJob} {clock : ℕ} :
    Capped tables (start tables history clock) := by
  refine ⟨slotInvariant_start, rfl, ?_⟩
  intro model
  have nonneg : ∀ caps : List ℤ, 0 ≤ caps.foldr max 0 := by
    intro caps
    induction caps with
    | nil => simp
    | cons first rest ih => exact le_max_of_le_right ih
  exact nonneg _

end Steps

section Accounting

variable {limits : Limits} {tables : QueueTables} {history : List QueueJob} {clock : ℕ}
  {trace : List Action} {state : State}

theorem slotInvariant_of_run {admits : State → Action → Prop}
    (run : Run (step limits) admits (start tables history clock) trace state) :
    SlotInvariant (fun _ => True) state := by
  refine run.invariant _ slotInvariant_start ?_
  intro state next action inv _ fires
  exact inv.step (fun _ _ _ => trivial) fires

theorem capped_of_run (run : Run (step limits) (fun _ _ => True) (start tables history clock) trace
    state) (fixed : ∀ action ∈ trace, action.editsQueues = false) : Capped tables state := by
  refine (run.with_labels fixed).invariant _ capped_start ?_
  intro state next action inv admitted fires
  exact inv.step admitted.2 fires

/-- Slot accounting. In every reachable state `inflight` counts the jobs that hold a slot; a
dispatcher that is about to take one finds the counter below the cap of its step and the job never
dispatched before, and no dispatcher takes that job again later; with fixed queues no model has
more jobs in flight than its largest cap; and no slot outlives the jobs, dropped or not. -/
theorem slot_accounting
    (run : Run (step limits) (fun _ _ => True) (start tables history clock) trace state) :
    (∀ model, state.inflight model = slotsHeld state.runs state.heap state.nextJob model ∧
      0 ≤ state.inflight model) ∧
    (∀ t queue head pick, state.routines t = .dispatchMark queue head pick →
      (∃ queueStep ∈ queue.steps, pick.model = queueStep.modelAlias ∧
        state.inflight pick.model < stepCap queueStep) ∧
      state.runs head = .absent ∧
      ∀ rest last, Run (step limits) (fun _ _ => True) state (.dispatch t .mark :: rest) last →
        ∀ t' queue' pick', last.routines t' ≠ .dispatchMark queue' head pick') ∧
    ((∀ action ∈ trace, action.editsQueues = false) → ∀ model,
      (slotsHeld state.runs state.heap state.nextJob model : ℤ) ≤ largestCap tables model) ∧
    ((∀ j, (state.runs j).holdsSlot = false) → ∀ model, state.inflight model = 0) := by
  have inv := slotInvariant_of_run run
  refine ⟨?_, ?_, ?_, ?_⟩
  · intro model
    have counted := inv.slots.counted model
    exact ⟨counted, by omega⟩
  · intro t queue head pick routine
    have here := inv.dispatchers t
    rw [routine] at here
    rcases here with ⟨_, _, ⟨queueStep, stepMem, named, cap⟩, _, absent, slot⟩
    refine ⟨⟨queueStep, stepMem, named, cap ▸ slot⟩, absent, ?_⟩
    intro rest last more t' queue' pick' routine'
    have invLast := slotInvariant_of_run (run.append more)
    have there := invLast.dispatchers t'
    rw [routine'] at there
    cases more with
    | cons _ fires tail =>
        simp only [step, stepDispatch, routine, Option.some.injEq] at fires
        subst fires
        exact runs_ne_absent_of_run tail (by simp) there.2.2.2.2.1
  · intro fixed model
    rw [← inv.slots.counted model]
    exact (capped_of_run run fixed).capped model
  · intro free model
    rw [inv.slots.counted model]
    simp [slotsHeld, free, Nat.count_false]

/-- One call that is dispatched and forwarded. -/
theorem slot_accounting_coder :
    ∃ state, Run (step defaultLimits) (fun _ _ => True) (start coderTables [] 0)
        (joins 0 ⟨"coder", "", "/v1/chat/completions", 10⟩ 0 ++ dispatches (.call 0) [0]) state ∧
      (∀ model, state.inflight model = slotsHeld state.runs state.heap state.nextJob model ∧
        0 ≤ state.inflight model) ∧
      slotsHeld state.runs state.heap state.nextJob "local" = 1 ∧
      largestCap coderTables "local" = 1 := by
  have ran : ((exec (step defaultLimits) (start coderTables [] 0)
      (joins 0 ⟨"coder", "", "/v1/chat/completions", 10⟩ 0 ++ dispatches (.call 0) [0])).map
        fun state => slotsHeld state.runs state.heap state.nextJob "local") = some 1 := by
    decide
  rcases Option.map_eq_some_iff.mp ran with ⟨state, executed, held⟩
  have run := run_of_exec executed
  exact ⟨state, run, (slot_accounting run).1, held, by decide⟩

end Accounting

end MikroLLM.Queue
