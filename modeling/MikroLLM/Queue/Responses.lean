import MikroLLM.Queue.Ownership

/-!
# One response for each call

A call that registered a waiter gets its response from the `Forward` call of its
job, or from the timeout branch of `handle`. Two orders of steps break this. A
purge completes the waiter it drops, and the call returns without a response:
nobody writes the 503. And between the test that the job still waits and
`dropWaiter` a dispatcher can take the job, which is then both answered and
forwarded. In every run without these two, each call gets exactly one response.
-/

namespace MikroLLM.Queue

open Domain Store Go Library

/-- The steps that leave the waiter of a call to one goroutine: only a call whose deadline has
passed loses its waiter to `dropWaiter`, a dispatcher takes only a waiter that is still registered
and whose deadline has not passed, and `Forward` returns after it wrote. -/
def undisturbed (state : State) : Action → Bool
  | .purge t .dropLock =>
      match state.routines t with
      | .dropLock j _ _ => !state.registered j || (state.calls (state.writer j)).pc = .timeout j
      | _ => true
  | .dispatch t .check =>
      match state.routines t with
      | .dispatchCheck _ head pick =>
          (state.heap head).status ≠ .waiting || state.inflight pick.model ≥ pick.cap ||
            (state.registered head && (state.calls (state.writer head)).pc ≠ .timeout head)
      | _ => true
  | .run j (.return _) => state.runs j ≠ .inForward false
  | _ => true

/-- The frame of a call has neither answered nor handed its request on. -/
def CallPc.early : CallPc → Bool
  | .idle | .enter | .counts | .overflowSelect | .overflowInsert _ | .overflowLookup _
  | .overflowForward _ | .insertSelect | .insertWrite _ | .register _ => true
  | _ => false

/-- The call waits and its deadline has not been found expired. -/
def CallPc.Patient (j : JobId) (pc : CallPc) : Prop :=
  pc = .select j ∨ pc = .expired j ∨ pc = .await j

/-- `run` has written the response, and its goroutine has not ended. -/
def RunPc.written : RunPc → Bool
  | .inForward true | .finishLock | .finishCopy | .finishSave _ | .finishComplete => true
  | _ => false

def timeoutAnswer : Response := .error 504 "queue wait timeout"

/-- The stages of a call with a registered waiter: its place, its response, whether its job is in
the map of waiters, where `run` and `dropWaiter` stand, whether the waiter is complete, and the
models `Forward` was called for. -/
inductive Served (j : JobId) : CallPc → List Response → Bool → RunPc → DropPc → Bool →
    List String → Prop
  | waiting {pc : CallPc} (place : pc = .select j ∨ pc = .expired j ∨ pc = .timeout j) :
      Served j pc [] true .absent .absent false []
  | dispatched {pc : CallPc} {registered : Bool} {run : RunPc} (place : pc.Patient j)
      (goes : run = .start ∨ ∃ t, run = .dispatched t) :
      Served j pc [] registered run .absent false []
  | forwarding {pc : CallPc} {registered : Bool} {model : String} (place : pc.Patient j) :
      Served j pc [] registered (.inForward false) .absent false [model]
  | written {pc : CallPc} {registered : Bool} {run : RunPc} {model : String}
      (place : pc.Patient j) (wrote : run.written = true) :
      Served j pc [.forward] registered run .absent false [model]
  | exited {pc : CallPc} {registered : Bool} {model : String}
      (place : pc.Patient j ∨ pc.leaves = true) :
      Served j pc [.forward] registered .exited .absent true [model]
  | dropping {drop : DropPc} {closed : Bool} (taken : drop ≠ .absent) :
      Served j (.timeout j) [] false .absent drop closed []
  | timedOut {pc : CallPc} {drop : DropPc} {closed : Bool} (place : pc.leaves = true)
      (taken : drop ≠ .absent) : Served j pc [timeoutAnswer] false .absent drop closed []

structure Responses (state : State) : Prop where
  served : ∀ c j, (state.calls c).waiter = some j →
    Served j (state.calls c).pc (state.calls c).sent (state.registered j) (state.runs j)
      (state.drops j) (state.closed j) (state.forwards j)
  early : ∀ c, (state.calls c).pc.early = true → (state.calls c).sent = []
  pending : ∀ c j, (state.calls c).pc = .timeout j → state.registered j = true →
    ∃ reason after, state.routines (.call c) = .dropLock j reason after
  marking : ∀ t queue head pick, state.routines t = .dispatchMark queue head pick →
    state.registered head = true ∧ (state.calls (state.writer head)).pc ≠ .timeout head

section Stages

variable {j : JobId} {pc : CallPc} {sent : List Response} {registered closed : Bool} {run : RunPc}
  {drop : DropPc} {forwards : List String}

/-- In every stage nothing is written yet, or `Forward` was called once and wrote, or it was never
called and the timeout was answered. -/
theorem Served.response (served : Served j pc sent registered run drop closed forwards) :
    (sent = [] ∧ forwards.length ≤ 1 ∧ pc ≠ .returned) ∨
      (sent = [.forward] ∧ forwards.length = 1) ∨ (sent = [timeoutAnswer] ∧ forwards = []) := by
  cases served with
  | waiting place =>
      left
      rcases place with rfl | rfl | rfl <;> simp
  | dispatched place | forwarding place =>
      left
      rcases place with rfl | rfl | rfl <;> simp
  | written | exited => exact Or.inr (Or.inl ⟨rfl, rfl⟩)
  | dropping => exact Or.inl (by simp)
  | timedOut => exact Or.inr (Or.inr ⟨rfl, rfl⟩)

/-- A call whose frame has returned goes on returning. -/
theorem Served.leave {pc' : CallPc}
    (served : Served j pc sent registered run drop closed forwards) (before : pc.leaves = true)
    (after : pc'.leaves = true) : Served j pc' sent registered run drop closed forwards := by
  cases served with
  | waiting place => rcases place with rfl | rfl | rfl <;> simp [CallPc.leaves] at before
  | dispatched place | forwarding place | written place =>
      rcases place with rfl | rfl | rfl <;> simp [CallPc.leaves] at before
  | exited place => exact .exited (Or.inr after)
  | dropping => simp [CallPc.leaves] at before
  | timedOut place taken => exact .timedOut after taken

/-- A call that waits for its job goes on waiting. -/
theorem Served.wait {pc' : CallPc} (served : Served j pc sent registered run drop closed forwards)
    (before : pc.Patient j) (after : pc'.Patient j)
    (stays : registered = true → run = .absent → pc' ≠ .await j) :
    Served j pc' sent registered run drop closed forwards := by
  cases served with
  | waiting place =>
      have notAwait := stays rfl rfl
      refine .waiting ?_
      rcases after with rfl | rfl | rfl
      · exact Or.inl rfl
      · exact Or.inr (Or.inl rfl)
      · exact (notAwait rfl).elim
  | dispatched place goes => exact .dispatched after goes
  | forwarding place => exact .forwarding after
  | written place wrote => exact .written after wrote
  | exited place => exact .exited (Or.inl after)
  | dropping taken => rcases before with same | same | same <;> cases same
  | timedOut place taken => rcases before with rfl | rfl | rfl <;> simp [CallPc.leaves] at place

/-- The completion of its waiter reaches a call only after `run` has ended. -/
theorem Served.receive {pc' : CallPc}
    (served : Served j pc sent registered run drop true forwards)
    (before : pc = .select j ∨ pc = .await j) (after : pc'.leaves = true) :
    Served j pc' sent registered run drop true forwards := by
  cases served with
  | exited place => exact .exited (Or.inr after)
  | dropping taken => rcases before with same | same <;> cases same
  | timedOut place taken => exact .timedOut after taken

/-- A waiting job whose call has found its deadline expired. -/
theorem Served.expire (served : Served j (.expired j) sent registered run drop closed forwards)
    (absent : run = .absent) : Served j (.timeout j) sent registered run drop closed forwards := by
  cases served with
  | waiting place => exact .waiting (Or.inr (Or.inr rfl))
  | dispatched place goes => rcases goes with rfl | ⟨t, rfl⟩ <;> cases absent
  | forwarding place => cases absent
  | written place wrote => simp [absent, RunPc.written] at wrote
  | exited place => cases absent
  | timedOut place taken => simp [CallPc.leaves] at place

/-- The timeout branch answers once the waiter is gone. -/
theorem Served.answer {pc' : CallPc}
    (served : Served j (.timeout j) sent registered run drop closed forwards)
    (gone : registered = false) (after : pc'.leaves = true) :
    Served j pc' (sent ++ [timeoutAnswer]) registered run drop closed forwards := by
  cases served with
  | waiting place => cases gone
  | dispatched place | forwarding place | written place =>
      rcases place with same | same | same <;> cases same
  | exited place =>
      rcases place with (same | same | same) | leaves
      · cases same
      · cases same
      · cases same
      · simp [CallPc.leaves] at leaves
  | dropping taken => exact .timedOut after taken
  | timedOut place taken => simp [CallPc.leaves] at place

/-- A dispatcher takes a registered job whose call has not found its deadline expired. -/
theorem Served.dispatch {t : Thread}
    (served : Served j pc sent true .absent drop closed forwards) (patient : pc ≠ .timeout j) :
    Served j pc sent true (.dispatched t) drop closed forwards := by
  cases served with
  | waiting place =>
      refine .dispatched ?_ (Or.inr ⟨t, rfl⟩)
      rcases place with rfl | rfl | rfl
      · exact Or.inl rfl
      · exact Or.inr (Or.inl rfl)
      · exact (patient rfl).elim
  | dispatched place goes => rcases goes with same | ⟨t, same⟩ <;> cases same
  | written place wrote => cases wrote

/-- The dispatcher starts the goroutine. -/
theorem Served.start {t : Thread}
    (served : Served j pc sent registered (.dispatched t) drop closed forwards) :
    Served j pc sent registered .start drop closed forwards := by
  cases served with
  | dispatched place goes => exact .dispatched place (Or.inl rfl)
  | written place wrote => cases wrote

/-- A call whose deadline has passed loses its waiter. -/
theorem Served.lose {reason : String}
    (served : Served j (.timeout j) sent true run drop closed forwards) :
    Served j (.timeout j) sent false run (.mark reason) closed forwards := by
  cases served with
  | waiting place => exact .dropping (by simp)
  | dispatched place | forwarding place | written place =>
      rcases place with same | same | same <;> cases same
  | exited place =>
      rcases place with (same | same | same) | leaves
      · cases same
      · cases same
      · cases same
      · simp [CallPc.leaves] at leaves

/-- `dropWaiter` goes on. -/
theorem Served.dropOn {drop' : DropPc} {closed' : Bool}
    (served : Served j pc sent registered run drop closed forwards) (before : drop ≠ .absent)
    (after : drop' ≠ .absent) : Served j pc sent registered run drop' closed' forwards := by
  cases served with
  | dropping taken => exact .dropping after
  | timedOut place taken => exact .timedOut place after
  | _ => exact (before rfl).elim

/-- `run` calls `Forward`. -/
theorem Served.forward {model : String}
    (served : Served j pc sent registered .start drop closed forwards) :
    Served j pc sent registered (.inForward false) drop closed (forwards ++ [model]) := by
  cases served with
  | dispatched place goes => exact .forwarding place
  | written place wrote => cases wrote

/-- `Forward` writes the response. -/
theorem Served.write
    (served : Served j pc sent registered (.inForward false) drop closed forwards) :
    Served j pc (sent ++ [.forward]) registered (.inForward true) drop closed forwards := by
  cases served with
  | dispatched place goes => rcases goes with same | ⟨t, same⟩ <;> cases same
  | forwarding place => exact .written place rfl
  | written place wrote => cases wrote

/-- `run` goes on after the response was written. -/
theorem Served.finish {run' : RunPc} {registered' : Bool}
    (served : Served j pc sent registered run drop closed forwards) (before : run.written = true)
    (after : run'.written = true) : Served j pc sent registered' run' drop closed forwards := by
  cases served with
  | dispatched place goes => rcases goes with rfl | ⟨t, rfl⟩ <;> cases before
  | written place wrote => exact .written place after
  | _ => cases before

theorem Served.exit (served : Served j pc sent registered run drop closed forwards)
    (before : run.written = true) : Served j pc sent registered .exited drop true forwards := by
  cases served with
  | dispatched place goes => rcases goes with rfl | ⟨t, rfl⟩ <;> cases before
  | written place wrote => exact .exited (Or.inl place)
  | _ => cases before

theorem Served.not_failing {message : String}
    (served : Served j pc sent registered (.failing message) drop closed forwards) : False := by
  cases served with
  | dispatched place goes => rcases goes with same | ⟨t, same⟩ <;> cases same
  | written place wrote => cases wrote

end Stages

section Steps

theorem afterDrop_ne_mark {limits : Limits} {after : AfterDrop} {queue : Queue} {head : JobId}
    {pick : Pick} : afterDrop limits after ≠ .dispatchMark queue head pick := by
  cases after with
  | timeout => simp [afterDrop]
  | purge rest jobs bytes =>
      simp only [afterDrop]
      split <;> simp

variable {limits : Limits} {known : Queue → Prop} {state next : State} {c : CallId}

/-- A call goes on, to a place other than the timeout branch. -/
theorem Responses.setCall {call : Call} (inv : Responses state)
    (own : ∀ j, call.waiter = some j → Served j call.pc call.sent (state.registered j)
      (state.runs j) (state.drops j) (state.closed j) (state.forwards j))
    (early : call.pc.early = true → call.sent = []) (notTimeout : ∀ j, call.pc ≠ .timeout j) :
    Responses (state.setCall c call) := by
  constructor
  · intro other j waiter
    rcases eq_or_ne other c with rfl | different
    · simpa using own j (by simpa using waiter)
    · simpa [different] using inv.served other j (by simpa [different] using waiter)
  · intro other isEarly
    rcases eq_or_ne other c with rfl | different
    · simpa using early (by simpa using isEarly)
    · simpa [different] using inv.early other (by simpa [different] using isEarly)
  · intro other j timeout
    rcases eq_or_ne other c with rfl | different
    · exact absurd (by simpa using timeout) (notTimeout j)
    · exact inv.pending other j (by simpa [different] using timeout)
  · intro t queue head pick marks
    rcases inv.marking t queue head pick marks with ⟨registered, patient⟩
    refine ⟨registered, ?_⟩
    rcases eq_or_ne (state.writer head) c with same | different
    · simpa [same] using notTimeout head
    · simpa [different] using patient

/-- A goroutine moves inside a shared routine; a call on its way to `dropWaiter` does not. -/
theorem Responses.setRoutine {t : Thread} {routine : Routine} (inv : Responses state)
    (held : ∀ call j, t = .call call → (state.calls call).pc = .timeout j →
      state.registered j = true → ∃ reason after, routine = .dropLock j reason after)
    (marks : ∀ queue head pick, routine = .dispatchMark queue head pick →
      state.registered head = true ∧ (state.calls (state.writer head)).pc ≠ .timeout head) :
    Responses (state.setRoutine t routine) := by
  refine ⟨inv.served, inv.early, ?_, ?_⟩
  · intro call j timeout registered
    rcases eq_or_ne (Thread.call call) t with same | different
    · simpa [same] using held call j same.symm timeout registered
    · simpa [different] using inv.pending call j timeout registered
  · intro other queue head pick marking
    rcases eq_or_ne other t with rfl | different
    · exact marks queue head pick (by simpa using marking)
    · exact inv.marking other queue head pick (by simpa [different] using marking)

/-- A goroutine that is not on its way to `dropWaiter` moves inside a shared routine. -/
theorem Responses.move {t : Thread} {routine : Routine} (inv : Responses state)
    (notDrop : ∀ j reason after, state.routines t ≠ .dropLock j reason after)
    (marks : ∀ queue head pick, routine = .dispatchMark queue head pick →
      state.registered head = true ∧ (state.calls (state.writer head)).pc ≠ .timeout head) :
    Responses (state.setRoutine t routine) := by
  refine inv.setRoutine ?_ marks
  rintro call j rfl timeout registered
  rcases inv.pending call j timeout registered with ⟨reason, after, atDrop⟩
  exact absurd atDrop (notDrop j reason after)

/-- One job goes on, and its call does not move. -/
theorem Responses.setJob (j : JobId) (inv : Responses state) (calls : next.calls = state.calls)
    (writer : next.writer = state.writer) (routines : next.routines = state.routines)
    (others : ∀ k ≠ j, next.registered k = state.registered k ∧ next.runs k = state.runs k ∧
      next.drops k = state.drops k ∧ next.closed k = state.closed k ∧
        next.forwards k = state.forwards k)
    (fewer : next.registered j = true → state.registered j = true)
    (marked : ∀ t queue pick, state.routines t = .dispatchMark queue j pick →
      next.registered j = true)
    (own : ∀ c, (state.calls c).waiter = some j → Served j (state.calls c).pc (state.calls c).sent
      (next.registered j) (next.runs j) (next.drops j) (next.closed j) (next.forwards j)) :
    Responses next := by
  refine ⟨?_, ?_, ?_, ?_⟩
  · intro c k waiter
    rw [calls] at waiter ⊢
    rcases eq_or_ne k j with rfl | other
    · exact own c waiter
    · rcases others k other with ⟨registered, runs, drops, closed, forwards⟩
      rw [registered, runs, drops, closed, forwards]
      exact inv.served c k waiter
  · rw [calls]
    exact inv.early
  · intro c k timeout present
    rw [calls] at timeout
    rw [routines]
    refine inv.pending c k timeout ?_
    rcases eq_or_ne k j with rfl | other
    · exact fewer present
    · rwa [(others k other).1] at present
  · intro t queue head pick marks
    rw [routines] at marks
    rcases inv.marking t queue head pick marks with ⟨registered, patient⟩
    rw [calls, writer]
    refine ⟨?_, patient⟩
    rcases eq_or_ne head j with rfl | other
    · exact marked t queue pick marks
    · rwa [(others head other).1]

/-- One job goes on inside or outside the map of waiters. -/
theorem Responses.keepJob (j : JobId) (inv : Responses state) (calls : next.calls = state.calls)
    (writer : next.writer = state.writer) (routines : next.routines = state.routines)
    (registered : next.registered = state.registered)
    (others : ∀ k ≠ j, next.runs k = state.runs k ∧ next.drops k = state.drops k ∧
      next.closed k = state.closed k ∧ next.forwards k = state.forwards k)
    (own : ∀ c, (state.calls c).waiter = some j → Served j (state.calls c).pc (state.calls c).sent
      (state.registered j) (next.runs j) (next.drops j) (next.closed j) (next.forwards j)) :
    Responses next := by
  refine inv.setJob j calls writer routines ?_ ?_ ?_ ?_
  · intro k other
    exact ⟨congrFun registered k, others k other⟩
  · rw [registered]
    exact id
  · intro t queue pick marks
    rw [registered]
    exact (inv.marking t queue j pick marks).1
  · rwa [registered]

/-- A call without a waiter goes on. -/
theorem Responses.advance {call : Call} (inv : Responses state)
    (noWaiter : call.waiter = none) (early : call.pc.early = true → call.sent = [])
    (notTimeout : ∀ j, call.pc ≠ .timeout j) : Responses (state.setCall c call) :=
  inv.setCall (by simp [noWaiter]) early notTimeout

/-- A call whose frame has returned goes on returning. -/
theorem Responses.leave {call : Call} (inv : Responses state)
    (before : (state.calls c).pc.leaves = true) (after : call.pc.leaves = true)
    (waiter : call.waiter = (state.calls c).waiter) (sent : call.sent = (state.calls c).sent) :
    Responses (state.setCall c call) := by
  refine inv.setCall ?_ ?_ ?_
  · intro j isWaiter
    rw [sent]
    exact (inv.served c j (waiter ▸ isWaiter)).leave before after
  · intro isEarly
    cases pc : call.pc <;> simp_all [CallPc.leaves, CallPc.early]
  · intro j pc
    simp [pc, CallPc.leaves] at after

theorem Responses.wait {j : JobId} {pc : CallPc} (inv : Responses state) (owned : Ownership state)
    (before : (state.calls c).pc.Patient j) (after : pc.Patient j)
    (stays : state.registered j = true → state.runs j = .absent → pc ≠ .await j) :
    Responses (state.setPc c pc) := by
  have waits : (state.calls c).pc.waits = some j := by
    rcases before with same | same | same <;> rw [same] <;> rfl
  refine inv.setCall ?_ ?_ ?_
  · intro k waiter
    have same : j = k := Option.some.inj (((owned.calls c).waits j waits).symm.trans waiter)
    subst same
    exact (inv.served c j waiter).wait before after stays
  · intro isEarly
    rcases after with rfl | rfl | rfl <;> simp [CallPc.early] at isEarly
  · intro k
    rcases after with rfl | rfl | rfl <;> simp

theorem Responses.register {j : JobId} (inv : Responses state) (owned : Ownership state)
    (pc : (state.calls c).pc = .register j) :
    Responses ((state.setRegistered j true).setCall c ((state.calls c).await j)) := by
  have joins : (state.calls c).pc.joins = some j := by rw [pc]; rfl
  have outside := owned.joining_outside joins
  rcases owned.untouched outside with ⟨_, absent, notDropped, opened, notForwarded⟩
  have silent : (state.calls c).sent = [] := inv.early c (by simp [pc, CallPc.early])
  refine ⟨?_, ?_, ?_, ?_⟩
  · intro other k waiter
    rcases eq_or_ne other c with rfl | different
    · have same : j = k := by simpa using waiter
      subst same
      simpa [absent, notDropped, opened, notForwarded, silent] using
        Served.waiting (j := j) (Or.inl rfl)
    · have waits : (state.calls other).waiter = some k := by simpa [different] using waiter
      have apart : k ≠ j := by
        rintro rfl
        have owner := ((owned.calls other).waiting k waits).2.1
        exact outside (by simpa [Entered, owner] using waits)
      simpa [different, apart] using inv.served other k waits
  · intro other isEarly
    rcases eq_or_ne other c with rfl | different
    · simp [CallPc.early] at isEarly
    · simpa [different] using inv.early other (by simpa [different] using isEarly)
  · intro other k timeout present
    have different : other ≠ c := by
      rintro rfl
      simp at timeout
    have timedOut : (state.calls other).pc = .timeout k := by simpa [different] using timeout
    have waits := (owned.calls other).waits k (by rw [timedOut]; rfl)
    have apart : k ≠ j := by
      rintro rfl
      have owner := ((owned.calls other).waiting k waits).2.1
      exact outside (by simpa [Entered, owner] using waits)
    exact inv.pending other k timedOut (by simpa [apart] using present)
  · intro t queue head pick marks
    rcases inv.marking t queue head pick marks with ⟨registered, patient⟩
    constructor
    · rcases eq_or_ne head j with rfl | apart
      · simp
      · simpa [apart] using registered
    · rcases eq_or_ne (state.writer head) c with same | different
      · simp [same]
      · simpa [different] using patient

/-- A call allocates a job. -/
theorem Responses.allocate {job : QueueJob} {pc : CallPc} (inv : Responses state)
    (owned : Ownership state) (moved : Responses (state.setPc c pc)) :
    Responses ((state.allocate c job).setPc c pc) := by
  refine ⟨moved.served, moved.early, moved.pending, ?_⟩
  intro t queue head pick marks
  have entered := owned.jobs.registered head (inv.marking t queue head pick marks).1
  have other : head ≠ state.nextJob := ((owned.calls _).waiting head entered).1.ne
  simpa [other] using moved.marking t queue head pick marks

/-- A call finds its deadline expired while its job waits. Nobody holds the lock. -/
theorem Responses.expire {j : JobId} {reason : String} {after : AfterDrop} (inv : Responses state)
    (owned : Ownership state) (slots : SlotInvariant known state)
    (pc : (state.calls c).pc = .expired j) (free : state.lock = none)
    (waiting : (state.heap j).status = .waiting) :
    Responses ((state.setPc c (.timeout j)).setRoutine (.call c) (.dropLock j reason after)) := by
  have absent : state.runs j = .absent := by
    by_contra present
    exact (slots.slots.dispatched j present).2.1 waiting
  refine ⟨?_, ?_, ?_, ?_⟩
  · intro other k waiter
    rcases eq_or_ne other c with rfl | different
    · have isWaiter : (state.calls other).waiter = some k := by simpa using waiter
      have waits := (owned.calls other).waits j (by rw [pc]; rfl)
      have same : j = k := Option.some.inj (waits.symm.trans isWaiter)
      subst same
      have served := inv.served other j isWaiter
      rw [pc] at served
      simpa using served.expire absent
    · simpa [different] using inv.served other k (by simpa [different] using waiter)
  · intro other isEarly
    rcases eq_or_ne other c with rfl | different
    · simp [CallPc.early] at isEarly
    · simpa [different] using inv.early other (by simpa [different] using isEarly)
  · intro other k timeout present
    rcases eq_or_ne other c with rfl | different
    · have same : j = k := by simpa using timeout
      subst same
      exact ⟨reason, after, by simp⟩
    · simpa [different] using inv.pending other k (by simpa [different] using timeout) present
  · intro t queue head pick marks
    rcases eq_or_ne t (.call c) with rfl | different
    · simp at marks
    · have marking : state.routines t = .dispatchMark queue head pick := by
        simpa [different] using marks
      exact (slots.not_marking free marking).elim

theorem Responses.handle {action : HandleStep} (inv : Responses state) (base : Consistent state)
    (move : HandleMove limits state c action next) : Responses next := by
  have owned := base.owned
  have mine := owned.calls c
  have silent := inv.early c
  cases move with
  | arrive pc =>
      exact inv.advance (mine.waiter_eq_none pc rfl rfl) (by simpa [pc, CallPc.early] using silent)
        (by simp)
  | refused pc | full pc | notInserted pc =>
      exact inv.advance (mine.waiter_eq_none pc rfl rfl) (by simp [CallPc.early]) (by simp)
  | @entered queue pc =>
      have moved : Responses (state.setCall c ((state.calls c).enterQueue queue)) :=
        inv.advance (mine.waiter_eq_none pc rfl rfl) (by simpa [pc, CallPc.early] using silent)
          (by simp)
      refine moved.setRoutine ?_ (by simp)
      rintro call j same timeout
      cases same
      simp at timeout
  | toOverflow pc | accepted pc | overflowNotInserted pc | overflowDirect pc | overflowNested pc =>
      exact inv.advance (mine.waiter_eq_none pc rfl rfl) (by simpa [pc, CallPc.early] using silent)
        (by simp)
  | @overflowInserted j pc =>
      have moved : Responses (state.setPc c (.overflowLookup j)) :=
        inv.advance (mine.waiter_eq_none pc rfl rfl) (by simpa [pc, CallPc.early] using silent)
          (by simp)
      exact ⟨moved.served, moved.early, moved.pending, moved.marking⟩
  | @inserted j pc =>
      have moved : Responses (state.setPc c (.register j)) :=
        inv.advance (mine.waiter_eq_none pc rfl rfl) (by simpa [pc, CallPc.early] using silent)
          (by simp)
      exact ⟨moved.served, moved.early, moved.pending, moved.marking⟩
  | overflowSelect pc =>
      have moved : Responses (state.setPc c (.overflowInsert state.nextJob)) :=
        inv.advance (mine.waiter_eq_none pc rfl rfl) (by simpa [pc, CallPc.early] using silent)
          (by simp)
      exact inv.allocate owned moved
  | insertSelect pc =>
      have moved : Responses (state.setPc c (.insertWrite state.nextJob)) :=
        inv.advance (mine.waiter_eq_none pc rfl rfl) (by simpa [pc, CallPc.early] using silent)
          (by simp)
      exact inv.allocate owned moved
  | @overflowForward j wrote result pc =>
      have noWaiter := mine.waiter_eq_none pc rfl rfl
      have moved : Responses (state.setCall c ((if wrote then (state.calls c).respond .forward
          else state.calls c).goto (.overflowSave j))) := by
        refine inv.advance ?_ (by simp [CallPc.early]) (by simp)
        cases wrote <;> simpa using noWaiter
      exact ⟨moved.served, moved.early, moved.pending, moved.marking⟩
  | overflowSave pc =>
      have moved : Responses (state.setPc c .unwind) :=
        inv.advance (mine.waiter_eq_none pc rfl rfl) (by simp [CallPc.early]) (by simp)
      exact ⟨moved.served, moved.early, moved.pending, moved.marking⟩
  | register pc =>
      refine (inv.register owned pc).setRoutine ?_ (by simp)
      rintro call k same timeout
      cases same
      simp at timeout
  | @receive j pc idle closed =>
      refine inv.setCall ?_ (by simp [CallPc.early]) (by simp)
      intro k waiter
      have waits : (state.calls c).pc.waits = some j := by
        rcases pc with same | same <;> rw [same] <;> rfl
      have same : j = k := Option.some.inj ((mine.waits j waits).symm.trans waiter)
      subst same
      have served := inv.served c j waiter
      rw [closed] at served ⊢
      exact served.receive pc rfl
  | expire pc => exact inv.wait owned (Or.inl pc) (Or.inr (Or.inl rfl)) (by simp)
  | notWaiting pc free left =>
      refine inv.wait owned (Or.inr (Or.inl pc)) (Or.inr (Or.inr rfl)) ?_
      intro present absent
      exact absurd (base.waiters.waiting _ present absent) left
  | stillWaiting pc free waiting => exact inv.expire owned base.slots pc free waiting
  | @answerTimeout j pc idle =>
      refine inv.setCall ?_ (by simp [CallPc.early]) (by simp)
      intro k waiter
      have same : j = k := Option.some.inj ((mine.waits j (by rw [pc]; rfl)).symm.trans waiter)
      subst same
      have served := inv.served c j waiter
      rw [pc] at served
      refine served.answer ?_ rfl
      by_contra present
      rcases inv.pending c j pc (by simpa using present) with ⟨reason, after, atDrop⟩
      rw [idle] at atDrop
      cases atDrop
  | returned pc => exact inv.leave (by rw [pc]; rfl) rfl rfl rfl
  | @unwound ok j outer pc frames =>
      have moved : Responses (state.setCall c ((state.calls c).unnest outer)) :=
        inv.leave (by rw [pc]; rfl) (by simp [pc, CallPc.leaves]) rfl rfl
      exact ⟨moved.served, moved.early, moved.pending, moved.marking⟩

theorem Responses.dispatch {t : Thread} {action : DispatchStep} (inv : Responses state)
    (base : Consistent state) (admitted : undisturbed state (.dispatch t action) = true)
    (move : DispatchMove state t action next) : Responses next := by
  have facts := base.slots.dispatchers t
  cases move with
  | found routine | missing routine | noWaiter routine | noStep routine | retry routine
  | head routine | picked routine =>
      exact inv.move (by simp [routine]) (by simp)
  | @checked queue head pick routine free waiting slot =>
      have moved : Responses (state.setRoutine t (.dispatchMark queue head pick)) := by
        refine inv.move (by simp [routine]) ?_
        intro queue' head' pick' same
        cases same
        simpa [undisturbed, routine, waiting, slot.not_ge] using admitted
      exact ⟨moved.served, moved.early, moved.pending, moved.marking⟩
  | @copy queue head routine =>
      have moved : Responses (state.setRoutine t (.dispatchSave queue head (state.heap head))) :=
        inv.move (by simp [routine]) (by simp)
      exact ⟨moved.served, moved.early, moved.pending, moved.marking⟩
  | @mark queue head pick routine =>
      rw [routine] at facts
      rcases facts with ⟨_, _, _, _, absent, _⟩
      rcases inv.marking t queue head pick routine with ⟨registered, patient⟩
      have marked : Responses ((state.setJob head (markedJob pick (state.heap head))).setRun head
          (.dispatched t)) := by
        refine inv.keepJob head rfl rfl rfl rfl (fun k other => by simp [other]) ?_
        intro c waiter
        have owner := ((base.owned.calls c).waiting head waiter).2.1
        have served := inv.served c head waiter
        rw [registered, absent] at served
        rw [owner] at patient
        simpa [registered] using served.dispatch patient
      have moved : Responses (((state.setJob head (markedJob pick (state.heap head))).setRun head
          (.dispatched t)).setRoutine t (.dispatchCopy queue head)) :=
        marked.move (by simp [routine]) (by simp)
      exact ⟨moved.served, moved.early, moved.pending, moved.marking⟩
  | @save queue head copied ok routine =>
      rw [routine] at facts
      have started : Responses (state.setRun head .start) := by
        refine inv.keepJob head rfl rfl rfl rfl (fun k other => by simp [other]) ?_
        intro c waiter
        have served := inv.served c head waiter
        rw [facts.2] at served
        simpa using served.start
      have moved : Responses ((state.setRun head .start).setRoutine t (.dispatchTop queue)) :=
        started.move (by simp [routine]) (by simp)
      exact ⟨moved.served, moved.early, moved.pending, moved.marking⟩

theorem Responses.purge {t : Thread} {action : PurgeStep} (inv : Responses state)
    (base : Consistent state) (admitted : undisturbed state (.purge t action) = true)
    (move : PurgeMove limits state t action next) : Responses next := by
  cases move with
  | above routine | under routine | queues routine | surplusDone routine | surplus routine
  | deleteDone routine | oldest routine | nextDone routine | next routine =>
      exact inv.move (by simp [routine]) (by simp)
  | aged routine =>
      have moved : Responses (state.setRoutine t .purgeQueues) := inv.move (by simp [routine]) (by simp)
      exact ⟨moved.served, moved.early, moved.pending, moved.marking⟩
  | @delete job extra queues routine =>
      have moved : Responses (state.setRoutine t (.purgeDelete extra queues)) :=
        inv.move (by simp [routine]) (by simp)
      exact ⟨moved.served, moved.early, moved.pending, moved.marking⟩
  | @taken j reason after routine free present =>
      have expired : (state.calls (state.writer j)).pc = .timeout j := by
        simpa [undisturbed, routine, present] using admitted
      have dropped : Responses ((state.setRegistered j false).setDrop j (.mark reason)) := by
        refine inv.setJob j rfl rfl rfl (fun k other => by simp [other]) (by simp) ?_ ?_
        · intro other queue pick marks
          exact (base.slots.not_marking free marks).elim
        · intro c waiter
          have owner := ((base.owned.calls c).waiting j waiter).2.1
          have served := inv.served c j waiter
          rw [owner] at expired
          rw [expired, present] at served
          simpa [expired] using served.lose
      refine dropped.setRoutine ?_ (by simp)
      rintro c k rfl timeout stays
      have apart : k ≠ j := by
        rintro rfl
        simp at stays
      rcases inv.pending c k timeout (by simpa [apart] using stays) with ⟨reason', after', atDrop⟩
      rw [routine] at atDrop
      cases atDrop
      exact (apart rfl).elim
  | @notTaken j reason after routine free absent =>
      refine inv.setRoutine ?_ ?_
      · rintro c k rfl timeout stays
        rcases inv.pending c k timeout stays with ⟨reason', after', atDrop⟩
        rw [routine] at atDrop
        cases atDrop
        simp [absent] at stays
      · exact fun queue head pick same => (afterDrop_ne_mark same).elim
  | @dropMark j after reason routine pc | @dropCopy j after routine pc
  | @dropSave j after copied ok routine pc =>
      refine inv.keepJob j rfl rfl rfl rfl (fun k other => by simp [other]) ?_
      intro c waiter
      simpa using (inv.served c j waiter).dropOn (by simp [pc]) (by simp)
  | @dropComplete j after routine pc =>
      have completed : Responses ((state.complete j).setDrop j .finished) := by
        refine inv.keepJob j rfl rfl rfl rfl (fun k other => by simp [other]) ?_
        intro c waiter
        simpa using (inv.served c j waiter).dropOn (by simp [pc]) (by simp)
      refine completed.move (by simp [routine]) ?_
      exact fun queue head pick same => (afterDrop_ne_mark same).elim

/-- `Forward` writes to the response of the call the job belongs to. -/
theorem Responses.write {j : JobId} (inv : Responses state) (owned : Ownership state)
    (pc : state.runs j = .inForward false) :
    Responses ((state.send (state.writer j) .forward).setRun j (.inForward true)) := by
  have entered := owned.jobs.runs j (by simp [pc])
  have waits : (state.calls (state.writer j)).waiter = some j := entered
  refine ⟨?_, ?_, ?_, ?_⟩
  · intro c k waiter
    rcases eq_or_ne c (state.writer j) with rfl | different
    · have isWaiter : (state.calls (state.writer j)).waiter = some k := by simpa using waiter
      have same : j = k := Option.some.inj (waits.symm.trans isWaiter)
      subst same
      have served := inv.served _ j isWaiter
      rw [pc] at served
      simpa using served.write
    · have isWaiter : (state.calls c).waiter = some k := by simpa [different] using waiter
      have apart : k ≠ j := by
        rintro rfl
        exact different ((owned.calls c).waiting k isWaiter).2.1.symm
      simpa [different, apart] using inv.served c k isWaiter
  · intro c isEarly
    rcases eq_or_ne c (state.writer j) with rfl | different
    · have places := ((owned.calls _).waiting j waits).2.2.2
      have early : (state.calls (state.writer j)).pc.early = true := by simpa using isEarly
      cases at_ : (state.calls (state.writer j)).pc <;>
        simp_all [CallPc.waits, CallPc.leaves, CallPc.early]
    · simpa [different] using inv.early c (by simpa [different] using isEarly)
  · intro c k timeout present
    refine inv.pending c k ?_ present
    rcases eq_or_ne c (state.writer j) with rfl | different
    · simpa using timeout
    · simpa [different] using timeout
  · intro t queue head pick marks
    rcases inv.marking t queue head pick marks with ⟨registered, patient⟩
    refine ⟨registered, ?_⟩
    rcases eq_or_ne (state.writer head) (state.writer j) with same | different
    · simpa [same] using patient
    · simpa [different] using patient

theorem Responses.run {j : JobId} {action : RunStep} (inv : Responses state)
    (base : Consistent state) (admitted : undisturbed state (.run j action) = true) (move : RunMove state j action next) :
    Responses next := by
  cases move with
  | start pc =>
      refine inv.keepJob j rfl rfl rfl rfl (fun k other => by simp [other]) ?_
      intro c waiter
      have served := inv.served c j waiter
      rw [pc] at served
      simpa using served.forward
  | write pc => exact inv.write base.owned pc
  | failed pc => simp [undisturbed, pc] at admitted
  | @returned result wrote pc =>
      refine inv.keepJob j rfl rfl rfl rfl (fun k other => by simp [other]) ?_
      intro c waiter
      have served := inv.served c j waiter
      have written : (state.runs j).written = true := by
        cases wrote with
        | true => simp [pc, RunPc.written]
        | false => simp [undisturbed, pc] at admitted
      simpa using served.finish written rfl
  | fail pc =>
      have entered := base.owned.jobs.runs j (by simp [pc])
      have served := inv.served _ j entered
      rw [pc] at served
      exact served.not_failing.elim
  | release pc free | noRelease pc free =>
      refine inv.setJob j rfl rfl rfl (fun k other => by simp [other]) (by simp) ?_ ?_
      · intro other queue pick marks
        exact (base.slots.not_marking free marks).elim
      · intro c waiter
        simpa using (inv.served c j waiter).finish (by simp [pc, RunPc.written]) rfl
  | finishCopy pc | finishSave pc =>
      refine inv.keepJob j rfl rfl rfl rfl (fun k other => by simp [other]) ?_
      intro c waiter
      simpa using (inv.served c j waiter).finish (by simp [pc, RunPc.written]) rfl
  | finishComplete pc =>
      have ended : Responses ((state.complete j).setRun j .exited) := by
        refine inv.keepJob j rfl rfl rfl rfl (fun k other => by simp [other]) ?_
        intro c waiter
        simpa using (inv.served c j waiter).exit (by simp [pc, RunPc.written])
      refine ended.setRoutine ?_ (by simp)
      rintro c k same
      cases same

theorem Responses.loop {action : LoopStep} (inv : Responses state)
    (move : LoopMove state action next) : Responses next := by
  cases move with
  | tick =>
      have moved : Responses (state.setRoutine .loop .purgeStats) := by
        refine inv.setRoutine ?_ (by simp)
        rintro c k same
        cases same
      exact ⟨moved.served, moved.early, moved.pending, moved.marking⟩
  | @next queueId rest =>
      have moved : Responses (state.setRoutine .loop (.dispatchEnter queueId)) := by
        refine inv.setRoutine ?_ (by simp)
        rintro c k same
        cases same
      exact ⟨moved.served, moved.early, moved.pending, moved.marking⟩
  | list | done => exact ⟨inv.served, inv.early, inv.pending, inv.marking⟩

/-- Every undisturbed step keeps one response for each call. -/
theorem Responses.step {action : Action} (inv : Responses state) (base : Consistent state)
    (admitted : undisturbed state action = true)
    (fires : Queue.step limits state action = some next) : Responses next := by
  cases action with
  | advance seconds | editQueues tables =>
      cases fires
      exact ⟨inv.served, inv.early, inv.pending, inv.marking⟩
  | handle c action => exact inv.handle base (handle_moves fires)
  | dispatch t action => exact inv.dispatch base admitted (dispatch_moves fires)
  | purge t action => exact inv.purge base admitted (purge_moves fires)
  | run j action => exact inv.run base admitted (run_moves fires)
  | loop action => exact inv.loop (loop_moves fires)

theorem responses_start {tables : QueueTables} {history : List QueueJob} {clock : ℕ} :
    Responses (start tables history clock) := by
  constructor <;> simp [start, Call.idle]

end Steps

section Runs

variable {limits : Limits} {tables : QueueTables} {history : List QueueJob} {clock : ℕ}
  {trace : List Action} {state : State}

/-- The response of a call with a registered waiter: at most one, from `Forward` or from the
timeout branch and not from both, and one when the call has returned. `Forward` is called at most
once for its job, and never when the timeout was answered. -/
def AnsweredOnce (state : State) (c : CallId) (j : JobId) : Prop :=
  let call := state.calls c
  (call.sent = [] ∧ call.pc ≠ .returned ∧ (state.forwards j).length ≤ 1) ∨
    (call.sent = [.forward] ∧ (state.forwards j).length = 1) ∨
    (call.sent = [timeoutAnswer] ∧ state.forwards j = [])

/-- In every state that an undisturbed run reaches, each call that registered a waiter is answered
once. -/
theorem answered_once_of_undisturbed
    (run : Run (step limits) (fun state action => undisturbed state action)
      (start tables history clock) trace state) :
    ∀ c j, (state.calls c).waiter = some j → AnsweredOnce state c j := by
  intro c j waiter
  have inv : Responses state := by
    refine invariant_of_run run responses_start ?_
    intro state next action base inv admitted fires
    exact inv.step base admitted fires
  rcases (inv.served c j waiter).response with
    ⟨silent, once, stays⟩ | ⟨answered, once⟩ | ⟨answered, never⟩
  · exact Or.inl ⟨silent, stays, once⟩
  · exact Or.inr (Or.inl ⟨answered, once⟩)
  · exact Or.inr (Or.inr ⟨answered, never⟩)

/-- A call that waits while no model has a route. -/
def waitsAlone : List Action :=
  joins 0 ⟨"coder", "", "/v1/chat/completions", 10⟩ 0 ++
    [.dispatch (.call 0) (.top [0]), .dispatch (.call 0) (.pick fun _ => none)]

/-- Its deadline passes, and `dropWaiter` is next. -/
def expires : List Action := waitsAlone ++ [.handle 0 .expire, .handle 0 .checkExpired]

def answersTimeout : List Action := [.handle 0 .answerTimeout, .handle 0 (.unwind true)]

/-- A call that waits until its deadline. -/
theorem answered_once_of_timeout :
    ∃ state, Run (step defaultLimits) (fun state action => undisturbed state action)
        (start coderTables [] 0) (expires ++ dropsWaiter (.call 0) ++ answersTimeout) state ∧
      (state.calls 0).waiter = some 0 ∧ AnsweredOnce state 0 0 := by
  have ran : ((execWhen (step defaultLimits) undisturbed (start coderTables [] 0)
      (expires ++ dropsWaiter (.call 0) ++ answersTimeout)).map
        fun state => (state.calls 0).waiter) = some (some 0) := by
    decide
  rcases Option.map_eq_some_iff.mp ran with ⟨state, executed, waiter⟩
  have run := run_of_execWhen executed
  exact ⟨state, run, waiter, answered_once_of_undisturbed run 0 0 waiter⟩

/-- The loop purges while the call waits. -/
def purgedByLoop : List Action :=
  waitsAlone ++ [.loop .tick, .purge .loop .stats, .purge .loop .oldest, .purge .loop .next] ++
    dropsWaiter .loop ++ [.handle 0 .receive, .handle 0 (.unwind true)]

/-- The loop dispatches between the test of the deadline and `dropWaiter`. -/
def dispatchedByLoop : List Action :=
  expires ++ [.loop .tick] ++ (quietPurge 1).map (.purge .loop) ++
    [.loop .list, .loop .next, .dispatch .loop .enter] ++ dispatches .loop [0] ++
    [.run 0 .start, .run 0 .write] ++ dropsWaiter (.call 0) ++ answersTimeout

set_option maxRecDepth 8000 in
/-- A purge lets a call return without a response, and a dispatch between the test of a deadline
and `dropWaiter` has a request answered twice. -/
theorem not_answered_once :
    (∃ state, Run (step tightLimits) (fun _ _ => True) (start coderTables [] 0) purgedByLoop state ∧
      (state.calls 0).waiter = some 0 ∧ (state.calls 0).pc = .returned ∧
        (state.calls 0).sent = [] ∧ ¬AnsweredOnce state 0 0) ∧
    (∃ state, Run (step defaultLimits) (fun _ _ => True) (start coderTables [] 0) dispatchedByLoop
        state ∧ (state.calls 0).waiter = some 0 ∧
      (state.calls 0).sent = [.forward, timeoutAnswer] ∧ ¬AnsweredOnce state 0 0) := by
  constructor
  · have ran : ((exec (step tightLimits) (start coderTables [] 0) purgedByLoop).map fun state =>
        ((state.calls 0).waiter, (state.calls 0).pc, (state.calls 0).sent)) =
          some (some 0, .returned, []) := by
      decide
    rcases Option.map_eq_some_iff.mp ran with ⟨state, executed, facts⟩
    simp only [Prod.mk.injEq] at facts
    rcases facts with ⟨waiter, pc, sent⟩
    exact ⟨state, run_of_exec executed, waiter, pc, sent, by simp [AnsweredOnce, pc, sent]⟩
  · have ran : ((exec (step defaultLimits) (start coderTables [] 0) dispatchedByLoop).map
        fun state => ((state.calls 0).waiter, (state.calls 0).sent)) =
          some (some 0, [.forward, timeoutAnswer]) := by
      decide
    rcases Option.map_eq_some_iff.mp ran with ⟨state, executed, facts⟩
    simp only [Prod.mk.injEq] at facts
    rcases facts with ⟨waiter, sent⟩
    exact ⟨state, run_of_exec executed, waiter, sent, by simp [AnsweredOnce, sent]⟩

end Runs

end MikroLLM.Queue
