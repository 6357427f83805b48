import MikroLLM.Queue.Slots

/-!
# Who owns a job

Every job belongs to the call that allocated it. A call allocates at most one
job that waits, and registers it at most once; its overflow jobs never enter the
map of waiters. What a dispatcher, a purge or a `run` goroutine works on is a
registered job, so each of them leaves the jobs of other kinds alone.
-/

namespace MikroLLM.Queue

open Domain Store Go Library

/-- The job of a call that is on its way into the map of waiters. -/
def CallPc.joins : CallPc → Option JobId
  | .insertWrite j | .register j => some j
  | _ => none

/-- The job a call waits for. -/
def CallPc.waits : CallPc → Option JobId
  | .select j | .expired j | .timeout j | .await j => some j
  | _ => none

/-- The overflow job of the innermost frame of a call. -/
def CallPc.overflows : CallPc → Option JobId
  | .overflowInsert j | .overflowLookup j | .overflowForward j | .overflowSave j => some j
  | _ => none

/-- The innermost frame of a call has returned. -/
def CallPc.leaves : CallPc → Bool
  | .unwind | .returned => true
  | _ => false

/-- The job a dispatcher has in hand. -/
def Routine.head : Routine → Option JobId
  | .dispatchPick _ head _ | .dispatchCheck _ head _ | .dispatchMark _ head _
  | .dispatchCopy _ head | .dispatchSave _ head _ => some head
  | _ => none

structure CallFacts (bound : JobId) (writer : JobId → CallId) (heap : JobId → QueueJob) (c : CallId)
    (call : Call) : Prop where
  joining : ∀ j, call.pc.joins = some j →
    j < bound ∧ writer j = c ∧ call.waiter = none ∧ j ∉ call.frames ∧
      (heap j).status = .waiting ∧ (heap j).queueId = call.queue.id
  waiting : ∀ j, call.waiter = some j →
    j < bound ∧ writer j = c ∧ j ∉ call.frames ∧
      (call.pc.waits = some j ∨ call.pc.leaves = true)
  overflowing : ∀ j, j ∈ call.frames ∨ call.pc.overflows = some j →
    j < bound ∧ writer j = c ∧ (heap j).status ≠ .waiting
  waits : ∀ j, call.pc.waits = some j → call.waiter = some j

/-- The job was put into the map of waiters by its call. -/
def Entered (calls : CallId → Call) (writer : JobId → CallId) (j : JobId) : Prop :=
  (calls (writer j)).waiter = some j

/-- Whatever goroutines other than the call do to a job, they do to a job that entered. -/
structure JobsEntered (entered : JobId → Prop) (registered : JobId → Bool) (runs : JobId → RunPc)
    (drops : JobId → DropPc) (closed : JobId → Bool) (forwards : JobId → List String)
    (routines : Thread → Routine) : Prop where
  registered : ∀ j, registered j = true → entered j
  runs : ∀ j, runs j ≠ .absent → entered j
  drops : ∀ j, drops j ≠ .absent → entered j
  closed : ∀ j, closed j = true → entered j
  forwards : ∀ j, forwards j ≠ [] → entered j
  heads : ∀ t j, (routines t).head = some j → entered j

structure Ownership (state : State) : Prop where
  calls : ∀ c, CallFacts state.nextJob state.writer state.heap c (state.calls c)
  jobs : JobsEntered (Entered state.calls state.writer) state.registered state.runs state.drops
    state.closed state.forwards state.routines
  ids : ∀ j < state.nextJob, (state.heap j).id = j

section Calls

variable {bound : JobId} {writer : JobId → CallId} {heap : JobId → QueueJob} {c : CallId} {call : Call}

/-- A call is not concerned by jobs of other calls, nor by how its own jobs go on. -/
theorem CallFacts.mono {bound' : JobId} {writer' : JobId → CallId} {heap' : JobId → QueueJob}
    (facts : CallFacts bound writer heap c call) (more : bound ≤ bound')
    (same : ∀ j < bound, writer' j = writer j)
    (status : ∀ j < bound, (heap' j).status = .waiting → (heap j).status = .waiting)
    (joining : ∀ j, call.pc.joins = some j → heap' j = heap j) :
    CallFacts bound' writer' heap' c call := by
  constructor
  · intro j joins
    rcases facts.joining j joins with ⟨below, mine, noWaiter, notFrame, waiting, queue⟩
    rw [joining j joins, same j below]
    exact ⟨below.trans_le more, mine, noWaiter, notFrame, waiting, queue⟩
  · intro j waiter
    rcases facts.waiting j waiter with ⟨below, mine, rest⟩
    rw [same j below]
    exact ⟨below.trans_le more, mine, rest⟩
  · intro j overflows
    rcases facts.overflowing j overflows with ⟨below, mine, notWaiting⟩
    rw [same j below]
    exact ⟨below.trans_le more, mine, fun waits => notWaiting (status j below waits)⟩
  · exact facts.waits

/-- A call moves on with no other job in hand than before. -/
theorem CallFacts.move {next : Call} (facts : CallFacts bound writer heap c call)
    (waiter : next.waiter = call.waiter) (frames : next.frames = call.frames)
    (joins : next.pc.joins = none ∨
      (next.pc.joins = call.pc.joins ∧ next.queue = call.queue))
    (overflows : next.pc.overflows = none ∨ next.pc.overflows = call.pc.overflows)
    (waits : ∀ j, call.waiter = some j → next.pc.waits = some j ∨ next.pc.leaves = true)
    (waited : ∀ j, next.pc.waits = some j → call.waiter = some j) :
    CallFacts bound writer heap c next := by
  constructor
  · intro j joining
    rcases joins with none | ⟨same, queue⟩
    · rw [none] at joining
      cases joining
    · rw [waiter, frames, queue]
      exact facts.joining j (same ▸ joining)
  · intro j isWaiter
    rw [waiter] at isWaiter
    rcases facts.waiting j isWaiter with ⟨below, mine, notFrame, _⟩
    rw [frames]
    exact ⟨below, mine, notFrame, waits j isWaiter⟩
  · intro j overflowing
    rw [frames] at overflowing
    apply facts.overflowing
    rcases overflowing with inFrames | inHand
    · exact Or.inl inFrames
    · rcases overflows with none | same
      · rw [none] at inHand
        cases inHand
      · exact Or.inr (same ▸ inHand)
  · intro j waiting
    rw [waiter]
    exact waited j waiting

/-- A call that neither waits nor leaves has no waiter. -/
theorem CallFacts.waiter_eq_none {pc : CallPc} (facts : CallFacts bound writer heap c call)
    (here : call.pc = pc) (notWaits : pc.waits = none) (stays : pc.leaves = false) :
    call.waiter = none := by
  cases waiter : call.waiter with
  | none => rfl
  | some j =>
      have places := (facts.waiting j waiter).2.2.2
      simp [here, notWaits, stays] at places

end Calls

section Jobs

variable {entered entered' : JobId → Prop} {registered : JobId → Bool} {runs : JobId → RunPc}
  {drops : JobId → DropPc} {closed : JobId → Bool} {forwards : JobId → List String}
  {routines : Thread → Routine} {t : Thread} {j : JobId}

theorem JobsEntered.mono (jobs : JobsEntered entered registered runs drops closed forwards routines)
    (keep : ∀ j, entered j → entered' j) :
    JobsEntered entered' registered runs drops closed forwards routines := by
  constructor
  · exact fun j present => keep j (jobs.registered j present)
  · exact fun j present => keep j (jobs.runs j present)
  · exact fun j present => keep j (jobs.drops j present)
  · exact fun j present => keep j (jobs.closed j present)
  · exact fun j present => keep j (jobs.forwards j present)
  · exact fun t j present => keep j (jobs.heads t j present)

theorem heads_update {routine : Routine} (heads : ∀ t j, (routines t).head = some j → entered j)
    (own : ∀ j, routine.head = some j → entered j) (other : Thread) (j : JobId)
    (present : (Function.update routines t routine other).head = some j) : entered j := by
  rcases eq_or_ne other t with rfl | different
  · rw [Function.update_self] at present
    exact own j present
  · rw [Function.update_of_ne different] at present
    exact heads other j present

theorem head_afterDrop {limits : Limits} {after : AfterDrop} : (afterDrop limits after).head = none := by
  cases after with
  | timeout => rfl
  | purge rest jobs bytes =>
      simp only [afterDrop]
      split <;> rfl

/-- A goroutine goes to a place of a shared routine where it has no new job in hand. -/
theorem JobsEntered.setRoutine {routine : Routine}
    (jobs : JobsEntered entered registered runs drops closed forwards routines)
    (own : ∀ j, routine.head = some j → entered j) :
    JobsEntered entered registered runs drops closed forwards
      (Function.update routines t routine) :=
  { jobs with heads := heads_update jobs.heads own }

/-- A component that changes at one job only. -/
theorem entered_update {Value : Type} {component : JobId → Value} {value : Value}
    (property : Value → Prop) (known : ∀ k, property (component k) → entered k)
    (own : property value → entered j) (k : JobId)
    (present : property (Function.update component j value k)) : entered k := by
  rcases eq_or_ne k j with rfl | other
  · rw [Function.update_self] at present
    exact own present
  · rw [Function.update_of_ne other] at present
    exact known k present

theorem JobsEntered.setRegistered {present : Bool}
    (jobs : JobsEntered entered registered runs drops closed forwards routines)
    (own : present = true → entered j) :
    JobsEntered entered (Function.update registered j present) runs drops closed forwards
      routines :=
  { jobs with registered := entered_update (· = true) jobs.registered own }

theorem JobsEntered.setRun {pc : RunPc}
    (jobs : JobsEntered entered registered runs drops closed forwards routines)
    (own : entered j) :
    JobsEntered entered registered (Function.update runs j pc) drops closed forwards routines :=
  { jobs with runs := entered_update (· ≠ RunPc.absent) jobs.runs fun _ => own }

theorem JobsEntered.setDrop {pc : DropPc}
    (jobs : JobsEntered entered registered runs drops closed forwards routines)
    (own : entered j) :
    JobsEntered entered registered runs (Function.update drops j pc) closed forwards routines :=
  { jobs with drops := entered_update (· ≠ DropPc.absent) jobs.drops fun _ => own }

theorem JobsEntered.complete
    (jobs : JobsEntered entered registered runs drops closed forwards routines)
    (own : entered j) :
    JobsEntered entered registered runs drops (Function.update closed j true) forwards routines :=
  { jobs with closed := entered_update (· = true) jobs.closed fun _ => own }

theorem JobsEntered.callForward {models : List String}
    (jobs : JobsEntered entered registered runs drops closed forwards routines)
    (own : entered j) :
    JobsEntered entered registered runs drops closed (Function.update forwards j models)
      routines :=
  { jobs with forwards := entered_update (· ≠ []) jobs.forwards fun _ => own }

end Jobs

section Steps

variable {limits : Limits} {state next : State} {c : CallId}

theorem calls_update {bound : JobId} {writer : JobId → CallId} {heap : JobId → QueueJob}
    {calls : CallId → Call} {call : Call} (facts : ∀ c, CallFacts bound writer heap c (calls c))
    (own : CallFacts bound writer heap c call) (other : CallId) :
    CallFacts bound writer heap other (Function.update calls c call other) := by
  rcases eq_or_ne other c with rfl | different
  · simpa using own
  · simpa [different] using facts other

theorem entered_setCall {calls : CallId → Call} {writer : JobId → CallId} {call : Call} {j : JobId}
    (waiter : ∀ k, (calls c).waiter = some k → call.waiter = some k)
    (entered : Entered calls writer j) : Entered (Function.update calls c call) writer j := by
  simp only [Entered] at entered ⊢
  rcases eq_or_ne (writer j) c with same | different
  · rw [same] at entered ⊢
    simpa using waiter j entered
  · rwa [Function.update_of_ne different]

/-- A step of a call that keeps its waiter. -/
theorem Ownership.setCall {call : Call} (inv : Ownership state)
    (own : CallFacts state.nextJob state.writer state.heap c call)
    (waiter : ∀ k, (state.calls c).waiter = some k → call.waiter = some k) :
    Ownership (state.setCall c call) :=
  ⟨calls_update inv.calls own, inv.jobs.mono fun _ => entered_setCall waiter, inv.ids⟩

/-- A goroutine goes to a place of a shared routine with no new job in hand. -/
theorem Ownership.setRoutine {t : Thread} {routine : Routine} (inv : Ownership state)
    (own : ∀ j, routine.head = some j → Entered state.calls state.writer j) :
    Ownership (state.setRoutine t routine) :=
  ⟨inv.calls, inv.jobs.setRoutine own, inv.ids⟩

theorem Ownership.saveJob {ok : Bool} {job : QueueJob} (inv : Ownership state) :
    Ownership (state.saveJob ok job) :=
  ⟨inv.calls, inv.jobs, inv.ids⟩

theorem Ownership.send {response : Response} (inv : Ownership state) :
    Ownership (state.send c response) := by
  have mine := inv.calls c
  show Ownership (state.setCall c ((state.calls c).respond response))
  refine inv.setCall ?_ fun _ kept => kept
  exact ⟨mine.joining, mine.waiting, mine.overflowing, mine.waits⟩

/-- A call moves on with no other job in hand than before. -/
theorem Ownership.setPc {pc : CallPc} (inv : Ownership state)
    (joins : pc.joins = none ∨ pc.joins = (state.calls c).pc.joins)
    (overflows : pc.overflows = none ∨ pc.overflows = (state.calls c).pc.overflows)
    (waits : ∀ j, (state.calls c).waiter = some j → pc.waits = some j ∨ pc.leaves = true)
    (waited : ∀ j, pc.waits = some j → (state.calls c).waiter = some j) :
    Ownership (state.setPc c pc) := by
  refine inv.setCall ?_ fun _ kept => kept
  exact (inv.calls c).move rfl rfl (joins.imp_right fun same => ⟨same, rfl⟩) overflows waits waited

/-- The innermost frame of a call returns. -/
theorem Ownership.leave {pc : CallPc} (inv : Ownership state) (leaves : pc.leaves = true) :
    Ownership (state.setPc c pc) := by
  cases pc with
  | unwind | returned =>
      exact inv.setPc (Or.inl rfl) (Or.inl rfl) (fun _ _ => Or.inr rfl) (by simp [CallPc.waits])
  | _ => simp [CallPc.leaves] at leaves

/-- The innermost frame of a call answers and returns. -/
theorem Ownership.answer {response : Response} (inv : Ownership state) :
    Ownership (state.answer c response) := by
  show Ownership (state.setCall c (((state.calls c).respond response).goto .unwind))
  refine inv.setCall ?_ fun _ kept => kept
  refine (inv.calls c).move rfl rfl (Or.inl rfl) (Or.inl rfl) (fun _ _ => Or.inr rfl) ?_
  simp [CallPc.waits]

/-- A call that does not wait moves on. -/
theorem Ownership.advance {pc : CallPc} (inv : Ownership state)
    (noWaiter : (state.calls c).waiter = none) (waits : pc.waits = none)
    (joins : pc.joins = none ∨ pc.joins = (state.calls c).pc.joins)
    (overflows : pc.overflows = none ∨ pc.overflows = (state.calls c).pc.overflows) :
    Ownership (state.setPc c pc) :=
  inv.setPc joins overflows (by simp [noWaiter]) (by simp [waits])

/-- A call that waits goes on waiting for the same job. -/
theorem Ownership.wait {j : JobId} {pc : CallPc} (inv : Ownership state)
    (before : (state.calls c).pc.waits = some j) (after : pc.waits = some j)
    (joins : pc.joins = none) (overflows : pc.overflows = none) :
    Ownership (state.setPc c pc) := by
  have waiter := (inv.calls c).waits j before
  refine inv.setPc (Or.inl joins) (Or.inl overflows) ?_ ?_
  · intro k isWaiter
    exact Or.inl (after.trans (waiter.symm.trans isWaiter))
  · intro k waits
    exact waiter.trans (after.symm.trans waits)

/-- A job that entered, or that an overflow frame has in hand, is not on its way in. -/
theorem Ownership.joins_ne {j : JobId} (inv : Ownership state)
    (left : Entered state.calls state.writer j ∨ (state.heap j).status ≠ .waiting) (c : CallId) :
    (state.calls c).pc.joins ≠ some j := by
  intro joins
  rcases (inv.calls c).joining j joins with ⟨_, mine, noWaiter, _, waiting, _⟩
  rcases left with entered | notWaiting
  · simp [Entered, mine, noWaiter] at entered
  · exact notWaiting waiting

/-- A job that is not on its way in changes, and does not wait afterwards. -/
theorem Ownership.setJob {j : JobId} (inv : Ownership state) (job : QueueJob)
    (left : Entered state.calls state.writer j ∨ (state.heap j).status ≠ .waiting)
    (status : job.status = .waiting → (state.heap j).status = .waiting)
    (same : job.id = (state.heap j).id) : Ownership (state.setJob j job) := by
  refine ⟨?_, inv.jobs, ?_⟩
  · intro c
    refine (inv.calls c).mono le_rfl (fun _ _ => rfl) ?_ ?_
    · intro k _
      rcases eq_or_ne k j with rfl | other
      · simpa using status
      · simp [other]
    · intro k joins
      have other : k ≠ j := by
        rintro rfl
        exact inv.joins_ne left c joins
      simp [other]
  · intro k below
    rcases eq_or_ne k j with rfl | other
    · simpa [same] using inv.ids k below
    · simpa [other] using inv.ids k below

/-- A call allocates a job. -/
theorem Ownership.allocate {job : QueueJob} {pc : CallPc} (inv : Ownership state)
    (noWaiter : (state.calls c).waiter = none) (waits : pc.waits = none)
    (joins : pc.joins = none ∨ (pc.joins = some state.nextJob ∧ job.status = .waiting ∧
      job.queueId = (state.calls c).queue.id))
    (overflows : pc.overflows = none ∨ (pc.overflows = some state.nextJob ∧ job.status ≠ .waiting))
    (fresh : job.id = state.nextJob) : Ownership ((state.allocate c job).setPc c pc) := by
  have mine := inv.calls c
  have notFrame : state.nextJob ∉ (state.calls c).frames := by
    intro frame
    exact absurd (mine.overflowing _ (Or.inl frame)).1 (Nat.lt_irrefl _)
  have kept : ∀ other, CallFacts (state.nextJob + 1) (Function.update state.writer state.nextJob c)
      (Function.update state.heap state.nextJob job) other (state.calls other) := by
    intro other
    refine (inv.calls other).mono (Nat.le_succ _) ?_ ?_ ?_
    · intro k below
      simp [below.ne]
    · intro k below
      simp [below.ne]
    · intro k joining
      simp [((inv.calls other).joining k joining).1.ne]
  have own : CallFacts (state.nextJob + 1) (Function.update state.writer state.nextJob c)
      (Function.update state.heap state.nextJob job) c ((state.calls c).goto pc) := by
    constructor
    · intro j joining
      rcases joins with none | ⟨some, waiting, queue⟩
      · simp [none] at joining
      · simp only [Call.goto_pc, some, Option.some.injEq] at joining
        subst joining
        simpa using ⟨noWaiter, notFrame, waiting, queue⟩
    · intro j waiter
      simp [noWaiter] at waiter
    · intro j overflowing
      rcases overflowing with frame | inHand
      · exact (kept c).overflowing j (Or.inl frame)
      · rcases overflows with none | ⟨some, status⟩
        · simp [none] at inHand
        · simp only [Call.goto_pc, some, Option.some.injEq] at inHand
          subst inHand
          simpa using status
    · intro j waiting
      simp [waits] at waiting
  refine ⟨calls_update kept own, ?_, ?_⟩
  · apply inv.jobs.mono
    intro j entered
    have below : j ≠ state.nextJob := by
      rintro rfl
      exact absurd ((inv.calls _).waiting _ entered).1 (Nat.lt_irrefl _)
    apply entered_setCall
    · exact fun _ kept => kept
    · simpa [Entered, below] using entered
  · intro k below
    have upTo : k < state.nextJob + 1 := by simpa using below
    rcases eq_or_ne k state.nextJob with rfl | other
    · simpa using fresh
    · simpa [other] using inv.ids k (lt_of_le_of_ne (Nat.lt_succ_iff.mp upTo) other)

/-- A call registers its waiter. -/
theorem Ownership.register {j : JobId} (inv : Ownership state)
    (pc : (state.calls c).pc = .register j) :
    Ownership ((state.setRegistered j true).setCall c ((state.calls c).await j)) := by
  have mine := inv.calls c
  rcases mine.joining j (by simp [pc, CallPc.joins]) with ⟨below, owner, noWaiter, notFrame, _⟩
  refine ⟨calls_update inv.calls ⟨?_, ?_, ?_, ?_⟩, ?_, inv.ids⟩
  · intro k joins
    simp [CallPc.joins] at joins
  · intro k waiter
    simp only [Call.await_waiter, Option.some.injEq] at waiter
    subst waiter
    exact ⟨below, owner, notFrame, Or.inl rfl⟩
  · intro k overflowing
    rcases overflowing with frame | inHand
    · exact mine.overflowing k (Or.inl frame)
    · cases inHand
  · intro k waits
    exact waits
  · refine (inv.jobs.mono ?_).setRegistered fun _ => ?_
    · intro k
      exact entered_setCall (by simp [noWaiter])
    · simp [Entered, owner]

theorem Ownership.handle {action : HandleStep} (inv : Ownership state)
    (move : HandleMove limits state c action next) : Ownership next := by
  have mine := inv.calls c
  cases move with
  | arrive pc =>
      have noWaiter := mine.waiter_eq_none pc rfl rfl
      refine inv.setCall (mine.move rfl rfl (Or.inl rfl) (Or.inl rfl) ?_ ?_) fun _ kept => kept
      · simp [noWaiter]
      · simp [CallPc.waits]
  | entered pc =>
      have noWaiter := mine.waiter_eq_none pc rfl rfl
      refine Ownership.setRoutine (inv.setCall (mine.move rfl rfl (Or.inl rfl) (Or.inl rfl) ?_ ?_)
        fun _ kept => kept) ?_
      · simp [noWaiter]
      · simp [CallPc.waits]
      · simp [Routine.head]
  | refused | full | answerTimeout | notInserted => exact inv.answer
  | receive | returned => exact inv.leave rfl
  | toOverflow pc | accepted pc =>
      exact inv.advance (mine.waiter_eq_none pc rfl rfl) rfl (Or.inl rfl) (Or.inl rfl)
  | overflowNotInserted pc | overflowDirect pc =>
      exact inv.advance (mine.waiter_eq_none pc rfl rfl) rfl (Or.inl rfl) (Or.inr (by rw [pc]; rfl))
  | overflowSelect pc =>
      exact inv.allocate (mine.waiter_eq_none pc rfl rfl) rfl (Or.inl rfl)
        (Or.inr ⟨rfl, by simp [State.newJob]⟩) rfl
  | insertSelect pc =>
      exact inv.allocate (mine.waiter_eq_none pc rfl rfl) rfl (Or.inr ⟨rfl, rfl, rfl⟩) (Or.inl rfl)
        rfl
  | @overflowInserted j pc =>
      have advanced : Ownership (state.setPc c (.overflowLookup j)) :=
        inv.advance (mine.waiter_eq_none pc rfl rfl) rfl (Or.inl rfl) (Or.inr (by rw [pc]; rfl))
      exact ⟨advanced.calls, advanced.jobs, advanced.ids⟩
  | @inserted j pc =>
      have advanced : Ownership (state.setPc c (.register j)) :=
        inv.advance (mine.waiter_eq_none pc rfl rfl) rfl (Or.inr (by rw [pc]; rfl)) (Or.inl rfl)
      exact ⟨advanced.calls, advanced.jobs, advanced.ids⟩
  | overflowSave pc =>
      have left : Ownership (state.setPc c .unwind) := inv.leave rfl
      exact ⟨left.calls, left.jobs, left.ids⟩
  | @overflowNested j queue pc looked =>
      have noWaiter := mine.waiter_eq_none pc rfl rfl
      refine inv.setCall ⟨?_, ?_, ?_, ?_⟩ fun _ kept => kept
      · simp [CallPc.joins]
      · simp [noWaiter]
      · intro k overflowing
        apply mine.overflowing
        rw [pc]
        simpa [CallPc.overflows, or_comm, eq_comm] using overflowing
      · simp [CallPc.waits]
  | @overflowForward j wrote result pc =>
      have noWaiter := mine.waiter_eq_none pc rfl rfl
      have inHand : (state.calls c).pc.overflows = some j := by rw [pc]; rfl
      have notWaiting := (mine.overflowing j (Or.inr inHand)).2.2
      have changed := inv.setJob (overflowJob state.clock (state.heap j) result)
        (Or.inr notWaiting) (fun waits => absurd waits overflowJob_status_ne) rfl
      have facts := changed.calls c
      cases wrote with
      | false =>
          refine changed.setCall (facts.move rfl rfl (Or.inl rfl) (Or.inr inHand.symm) ?_ ?_)
            fun _ kept => kept
          · simp [noWaiter]
          · simp [CallPc.waits]
      | true =>
          refine changed.setCall (facts.move rfl rfl (Or.inl rfl) (Or.inr inHand.symm) ?_ ?_)
            fun _ kept => kept
          · simp [noWaiter]
          · simp [CallPc.waits]
  | register pc => exact (inv.register pc).setRoutine (by simp [Routine.head])
  | @expire j pc => exact inv.wait (by rw [pc]; rfl) rfl rfl rfl
  | @stillWaiting j pc =>
      have waiting : Ownership (state.setPc c (.timeout j)) :=
        inv.wait (by rw [pc]; rfl) rfl rfl rfl
      exact waiting.setRoutine (by simp [Routine.head])
  | @notWaiting j pc => exact inv.wait (by rw [pc]; rfl) rfl rfl rfl
  | @unwound ok j outer pc frames =>
      have inFrames : j ∈ (state.calls c).frames := by simp [frames]
      have notWaiting := (mine.overflowing j (Or.inl inFrames)).2.2
      have changed : Ownership (state.setJob j (unwoundJob state.clock (state.heap j))) :=
        inv.setJob _ (Or.inr notWaiting) (by simp [unwoundJob]) rfl
      have saved : Ownership ((state.setJob j (unwoundJob state.clock (state.heap j))).saveJob ok
        (unwoundJob state.clock (state.heap j))) := changed.saveJob
      have facts := saved.calls c
      refine saved.setCall ⟨?_, ?_, ?_, facts.waits⟩ fun _ kept => kept
      · intro k joins
        simp [pc, CallPc.joins] at joins
      · intro k waiter
        rcases facts.waiting k waiter with ⟨below, owner, notFrame, places⟩
        refine ⟨below, owner, ?_, places⟩
        intro frame
        apply notFrame
        simpa [frames] using Or.inr frame
      · intro k overflowing
        apply facts.overflowing
        rcases overflowing with frame | inHand
        · exact Or.inl (by simpa [frames] using Or.inr frame)
        · exact Or.inr inHand

theorem Ownership.dispatch {t : Thread} {action : DispatchStep} (inv : Ownership state)
    (move : DispatchMove state t action next) : Ownership next := by
  have own := inv.jobs.heads t
  cases move with
  | found | missing | noWaiter | noStep | retry => exact inv.setRoutine (by simp [Routine.head])
  | head routine free perm first =>
      have registered := (lt_nextJob_of_waitingLocked perm first).2.1
      refine inv.setRoutine ?_
      intro j isHead
      cases isHead
      exact inv.jobs.registered _ registered
  | picked routine | checked routine | copy routine =>
      rw [routine] at own
      exact ⟨inv.calls, inv.jobs.setRoutine own, inv.ids⟩
  | @mark queue head pick routine =>
      rw [routine] at own
      have entered := own head rfl
      have marked := inv.setJob (markedJob pick (state.heap head)) (Or.inl entered)
        (by simp [markedJob]) rfl
      exact ⟨marked.calls, (marked.jobs.setRun entered).setRoutine own, marked.ids⟩
  | @save queue head copied ok routine =>
      rw [routine] at own
      have entered := own head rfl
      exact ⟨inv.calls, (inv.jobs.setRun entered).setRoutine (by simp [Routine.head]), inv.ids⟩

theorem Ownership.purge {t : Thread} {action : PurgeStep} (inv : Ownership state)
    (move : PurgeMove limits state t action next) : Ownership next := by
  cases move with
  | aged | delete => exact ⟨inv.calls, inv.jobs.setRoutine (by simp [Routine.head]), inv.ids⟩
  | @taken j reason after routine free present =>
      have entered := inv.jobs.registered j present
      refine ⟨inv.calls, JobsEntered.setRoutine ?_ (by simp [Routine.head]), inv.ids⟩
      exact (inv.jobs.setRegistered (by simp)).setDrop entered
  | notTaken => exact inv.setRoutine (by simp [head_afterDrop])
  | @dropMark j after reason routine pc =>
      have entered := inv.jobs.drops j (by simp [pc])
      have marked := inv.setJob (droppedJob state.clock reason (state.heap j)) (Or.inl entered)
        (by simp [droppedJob]) rfl
      exact ⟨marked.calls, marked.jobs.setDrop entered, marked.ids⟩
  | @dropCopy j after routine pc | @dropSave j after copied ok routine pc =>
      have entered := inv.jobs.drops j (by simp [pc])
      exact ⟨inv.calls, inv.jobs.setDrop entered, inv.ids⟩
  | @dropComplete j after routine pc =>
      have entered := inv.jobs.drops j (by simp [pc])
      exact ⟨inv.calls, ((inv.jobs.complete entered).setDrop entered).setRoutine
        (by simp [head_afterDrop]), inv.ids⟩
  | _ => exact inv.setRoutine (by simp [Routine.head])

theorem Ownership.run {j : JobId} {action : RunStep} (inv : Ownership state)
    (move : RunMove state j action next) : Ownership next := by
  have entered : state.runs j ≠ .absent → Entered state.calls state.writer j := inv.jobs.runs j
  cases move with
  | start pc => 
      have own := entered (by simp [pc])
      exact ⟨inv.calls, (inv.jobs.callForward own).setRun own, inv.ids⟩
  | write pc =>
      have sent : Ownership (state.send (state.writer j) .forward) := inv.send
      exact ⟨sent.calls, sent.jobs.setRun (sent.jobs.runs j (by simp [pc])), sent.ids⟩
  | @fail message pc =>
      have sent : Ownership (state.send (state.writer j) (.error 502 message)) := inv.send
      exact ⟨sent.calls, sent.jobs.setRun (sent.jobs.runs j (by simp [pc])), sent.ids⟩
  | @failed result message pc =>
      have own := entered (by simp [pc])
      have changed := inv.setJob (returnedJob state.clock (state.heap j) false result) (Or.inl own)
        (fun waits => absurd waits returnedJob_status_ne) rfl
      exact ⟨changed.calls, changed.jobs.setRun own, changed.ids⟩
  | @returned result wrote pc =>
      have own := entered (by simp [pc])
      have changed := inv.setJob (returnedJob state.clock (state.heap j) wrote result) (Or.inl own)
        (fun waits => absurd waits returnedJob_status_ne) rfl
      exact ⟨changed.calls, changed.jobs.setRun own, changed.ids⟩
  | release pc | noRelease pc =>
      have own := entered (by simp [pc])
      exact ⟨inv.calls, (inv.jobs.setRegistered (by simp)).setRun own, inv.ids⟩
  | finishCopy pc | finishSave pc =>
      exact ⟨inv.calls, inv.jobs.setRun (entered (by simp [pc])), inv.ids⟩
  | finishComplete pc =>
      have own := entered (by simp [pc])
      exact ⟨inv.calls, ((inv.jobs.complete own).setRun own).setRoutine (by simp [Routine.head]),
        inv.ids⟩

theorem Ownership.loop {action : LoopStep} (inv : Ownership state)
    (move : LoopMove state action next) : Ownership next := by
  cases move with
  | tick | next => exact ⟨inv.calls, inv.jobs.setRoutine (by simp [Routine.head]), inv.ids⟩
  | list | done => exact ⟨inv.calls, inv.jobs, inv.ids⟩

/-- Every step keeps the ownership of jobs. -/
theorem Ownership.step {action : Action} (inv : Ownership state)
    (fires : step limits state action = some next) : Ownership next := by
  cases action with
  | advance seconds | editQueues tables => cases fires; exact ⟨inv.calls, inv.jobs, inv.ids⟩
  | handle c action => exact inv.handle (handle_moves fires)
  | dispatch t action => exact inv.dispatch (dispatch_moves fires)
  | purge t action => exact inv.purge (purge_moves fires)
  | run j action => exact inv.run (run_moves fires)
  | loop action => exact inv.loop (loop_moves fires)

theorem ownership_start {tables : QueueTables} {history : List QueueJob} {clock : ℕ} :
    Ownership (start tables history clock) := by
  refine ⟨?_, ?_, ?_⟩
  · intro c
    constructor <;> simp [start, Call.idle, CallPc.joins, CallPc.waits, CallPc.overflows]
  · constructor <;> simp [start, Routine.head]
  · intro j _
    rfl

/-- Nothing has happened to a job that did not enter. -/
theorem Ownership.untouched {j : JobId} (inv : Ownership state)
    (outside : ¬Entered state.calls state.writer j) :
    state.registered j = false ∧ state.runs j = .absent ∧ state.drops j = .absent ∧
      state.closed j = false ∧ state.forwards j = [] := by
  refine ⟨?_, ?_, ?_, ?_, ?_⟩
  · exact Bool.eq_false_iff.mpr fun present => outside (inv.jobs.registered j present)
  · exact not_not.mp fun present => outside (inv.jobs.runs j present)
  · exact not_not.mp fun present => outside (inv.jobs.drops j present)
  · exact Bool.eq_false_iff.mpr fun present => outside (inv.jobs.closed j present)
  · exact not_not.mp fun present => outside (inv.jobs.forwards j present)

theorem Ownership.joining_outside {j : JobId} (inv : Ownership state)
    (joins : (state.calls c).pc.joins = some j) : ¬Entered state.calls state.writer j := by
  rcases (inv.calls c).joining j joins with ⟨_, owner, noWaiter, _⟩
  simp [Entered, owner, noWaiter]

theorem Ownership.overflowing_outside {j : JobId} (inv : Ownership state)
    (overflows : j ∈ (state.calls c).frames ∨ (state.calls c).pc.overflows = some j) :
    ¬Entered state.calls state.writer j := by
  intro entered
  rcases (inv.calls c).overflowing j overflows with ⟨_, owner, _⟩
  simp only [Entered, owner] at entered
  rcases (inv.calls c).waiting j entered with ⟨_, _, notFrame, places⟩
  rcases overflows with frame | inHand
  · exact notFrame frame
  · cases pc : (state.calls c).pc <;> simp_all [CallPc.overflows, CallPc.waits, CallPc.leaves]

end Steps

/-- The goroutine of a job has taken it out of the map of waiters. -/
def RunPc.finished : RunPc → Bool
  | .finishCopy | .finishSave _ | .finishComplete | .exited => true
  | _ => false

/-- A job in the map of waiters waits until it is dispatched; it leaves the map for good when it
is dropped or when its goroutine finishes. -/
structure Waiters (registered : JobId → Bool) (runs : JobId → RunPc) (drops : JobId → DropPc)
    (heap : JobId → QueueJob) : Prop where
  dropped : ∀ j, drops j ≠ .absent → registered j = false
  finished : ∀ j, (runs j).finished = true → registered j = false
  waiting : ∀ j, registered j = true → runs j = .absent → (heap j).status = .waiting

section Waiters

variable {registered : JobId → Bool} {runs : JobId → RunPc} {drops : JobId → DropPc}
  {heap : JobId → QueueJob} {j : JobId}

theorem Waiters.not_dropped (waiters : Waiters registered runs drops heap)
    (present : registered j = true) : drops j = .absent := by
  by_contra dropped
  rw [waiters.dropped j dropped] at present
  cases present

theorem Waiters.setJob {job : QueueJob} (waiters : Waiters registered runs drops heap)
    (outside : registered j = true → runs j ≠ .absent) :
    Waiters registered runs drops (Function.update heap j job) := by
  refine ⟨waiters.dropped, waiters.finished, ?_⟩
  intro k present absent
  rcases eq_or_ne k j with rfl | other
  · exact absurd absent (outside present)
  · simpa [other] using waiters.waiting k present absent

theorem Waiters.setRun {pc : RunPc} (waiters : Waiters registered runs drops heap)
    (started : pc ≠ .absent) (finishes : pc.finished = true → registered j = false) :
    Waiters registered (Function.update runs j pc) drops heap := by
  refine ⟨waiters.dropped, ?_, ?_⟩
  · intro k finished
    rcases eq_or_ne k j with rfl | other
    · exact finishes (by simpa using finished)
    · exact waiters.finished k (by simpa [other] using finished)
  · intro k present absent
    rcases eq_or_ne k j with rfl | other
    · exact absurd (by simpa using absent) started
    · exact waiters.waiting k present (by simpa [other] using absent)

theorem Waiters.setDrop {pc : DropPc} (waiters : Waiters registered runs drops heap)
    (out : registered j = false) :
    Waiters registered runs (Function.update drops j pc) heap := by
  refine ⟨?_, waiters.finished, waiters.waiting⟩
  intro k dropped
  rcases eq_or_ne k j with rfl | other
  · exact out
  · exact waiters.dropped k (by simpa [other] using dropped)

theorem Waiters.unregister (waiters : Waiters registered runs drops heap) :
    Waiters (Function.update registered j false) runs drops heap := by
  refine ⟨?_, ?_, ?_⟩
  · intro k dropped
    rcases eq_or_ne k j with rfl | other
    · simp
    · simpa [other] using waiters.dropped k dropped
  · intro k finished
    rcases eq_or_ne k j with rfl | other
    · simp
    · simpa [other] using waiters.finished k finished
  · intro k present absent
    rcases eq_or_ne k j with rfl | other
    · simp at present
    · exact waiters.waiting k (by simpa [other] using present) absent

theorem Waiters.register (waiters : Waiters registered runs drops heap)
    (absent : runs j = .absent) (notDropped : drops j = .absent)
    (status : (heap j).status = .waiting) :
    Waiters (Function.update registered j true) runs drops heap := by
  refine ⟨?_, ?_, ?_⟩
  · intro k dropped
    have other : k ≠ j := by
      rintro rfl
      exact dropped notDropped
    simpa [other] using waiters.dropped k dropped
  · intro k finished
    have other : k ≠ j := by
      rintro rfl
      simp [absent, RunPc.finished] at finished
    simpa [other] using waiters.finished k finished
  · intro k present out
    rcases eq_or_ne k j with rfl | other
    · exact status
    · exact waiters.waiting k (by simpa [other] using present) out

variable {limits : Limits} {state next : State}

/-- Every step keeps the map of waiters in order. -/
theorem Waiters.step {action : Action} (waiters : Waiters state.registered state.runs state.drops
    state.heap) (owned : Ownership state) (fires : step limits state action = some next) :
    Waiters next.registered next.runs next.drops next.heap := by
  cases action with
  | advance seconds | editQueues tables => cases fires; exact waiters
  | handle c action =>
      cases handle_moves fires with
      | overflowSelect | insertSelect =>
          refine waiters.setJob ?_
          intro present
          have entered := owned.jobs.registered _ present
          exact absurd ((owned.calls _).waiting _ entered).1 (Nat.lt_irrefl _)
      | @overflowForward j wrote result pc =>
          refine waiters.setJob ?_
          intro present
          have inHand : (state.calls c).pc.overflows = some j := by rw [pc]; rfl
          exact absurd (owned.jobs.registered j present) (owned.overflowing_outside (Or.inr inHand))
      | @unwound ok j outer pc frames =>
          refine waiters.setJob ?_
          intro present
          have inFrames : j ∈ (state.calls c).frames := by simp [frames]
          exact absurd (owned.jobs.registered j present) (owned.overflowing_outside (Or.inl inFrames))
      | @register j pc =>
          have joins : (state.calls c).pc.joins = some j := by rw [pc]; rfl
          rcases owned.untouched (owned.joining_outside joins) with ⟨_, absent, notDropped, _⟩
          exact waiters.register absent notDropped ((owned.calls c).joining _ joins).2.2.2.2.1
      | _ => exact waiters
  | dispatch t action =>
      cases dispatch_moves fires with
      | mark => 
          refine Waiters.setJob (waiters.setRun (by simp) (by simp [RunPc.finished])) ?_
          simp
      | save => exact waiters.setRun (by simp) (by simp [RunPc.finished])
      | _ => exact waiters
  | purge t action =>
      cases purge_moves fires with
      | taken => exact waiters.unregister.setDrop (by simp)
      | dropMark routine pc =>
          have out := waiters.dropped _ (by rw [pc]; simp)
          exact (waiters.setJob (by simp [out])).setDrop out
      | dropCopy routine pc | dropSave routine pc | dropComplete routine pc =>
          exact waiters.setDrop (waiters.dropped _ (by rw [pc]; simp))
      | _ => exact waiters
  | run j action =>
      cases run_moves fires with
      | failed pc | returned pc =>
          exact (waiters.setJob (by simp [pc])).setRun (by simp) (by simp [RunPc.finished])
      | start | write | fail => exact waiters.setRun (by simp) (by simp [RunPc.finished])
      | release | noRelease => exact waiters.unregister.setRun (by simp) (by simp)
      | finishCopy pc | finishSave pc | finishComplete pc =>
          refine waiters.setRun (by simp) fun _ => waiters.finished j ?_
          simp [pc, RunPc.finished]
  | loop action => cases loop_moves fires <;> exact waiters

end Waiters

/-- The invariants that every step keeps. -/
structure Consistent (state : State) : Prop where
  slots : SlotInvariant (fun _ => True) state
  owned : Ownership state
  waiters : Waiters state.registered state.runs state.drops state.heap

section Runs

variable {limits : Limits} {admits : State → Action → Prop} {tables : QueueTables}
  {history : List QueueJob} {clock : ℕ} {trace : List Action} {state next : State}

theorem consistent_start : Consistent (start tables history clock) :=
  ⟨slotInvariant_start, ownership_start, by constructor <;> simp [start]⟩

theorem Consistent.step {action : Action} (inv : Consistent state)
    (fires : Queue.step limits state action = some next) : Consistent next :=
  ⟨inv.slots.step (fun _ _ _ => trivial) fires, inv.owned.step fires,
    inv.waiters.step inv.owned fires⟩

/-- An invariant that admitted steps keep in consistent states holds along every run. -/
theorem invariant_of_run {Inv : State → Prop}
    (run : Run (Queue.step limits) admits (start tables history clock) trace state)
    (begins : Inv (start tables history clock))
    (kept : ∀ {state next action}, Consistent state → Inv state → admits state action →
      Queue.step limits state action = some next → Inv next) : Inv state :=
  run.invariant_under consistent_start Consistent.step begins kept

theorem consistent_of_run
    (run : Run (Queue.step limits) admits (start tables history clock) trace state) :
    Consistent state := by
  refine run.invariant _ consistent_start ?_
  intro state next action inv _ fires
  exact inv.step fires

end Runs

end MikroLLM.Queue
