import MikroLLM.A2A.Mailbox
import MikroLLM.Library.Runs

/-!
# No body is lost or delivered twice

Every pushed body is in one place: the queue, the channel of a `TakeAgent` call
that is still running, the result of one, or the bodies discarded. The places
are counted, and a step moves a body from one to another.
-/

namespace MikroLLM.A2A

open Library

/-- A `TakeAgent` call returned the body. -/
def TakePc.returns (n : PushId) : TakePc → Bool
  | .returned body _ => body = some n
  | _ => false

namespace Mailbox

/-- In how many places a body is. -/
def places (state : Mailbox) (n : PushId) : ℕ :=
  (state.box.q.map QueuedCall.body).count n +
    countOf (fun held => held = some n) state.channels state.taken +
    countOf (TakePc.returns n) state.takes state.taken +
    state.discarded.count n

/-- A `TakeAgent` call that is not over waits on its channel, or has a body in it. -/
structure ChannelFacts (state : Mailbox) : Prop where
  waiter : ∀ t, state.box.waiter = some t → state.takes t = .waiting ∧ state.channels t = none
  alone : ∀ t, state.takes t = .waiting → state.channels t = none → state.box.waiter = some t
  running : ∀ t n, state.channels t = some n → state.takes t = .waiting
  begun : ∀ t : ℕ, state.takes t ≠ .absent → t < state.taken

/-- Every body that was pushed is in one place, and no other one is anywhere. -/
structure Conserved (state : Mailbox) : Prop where
  channels : ChannelFacts state
  places : ∀ n, state.places n = if n < state.pushed then 1 else 0

/-- The step discards the body: the oldest entry of a full queue, or a queued call with a reply
channel that is cancelled by its id. -/
def Discards (state : Mailbox) (n : PushId) : Action → Prop
  | .pushAgent _ _ =>
      agentQueueMax ≤ state.box.q.length ∧ ∃ oldest, state.box.q.head? = some oldest ∧
        oldest.body = n
  | .cancelAgent id =>
      ∃ item ∈ state.box.q, item.body = n ∧ item.reply.isSome = true ∧ item.id = id
  | .timeout c =>
      ∃ m, state.callers c = .awaiting m ∧ ∃ item ∈ state.box.q, item.body = n ∧
        item.reply.isSome = true ∧ item.id = rpcID (state.bodies m)
  | _ => False

section Facts

variable {state next : Mailbox}

theorem ChannelFacts.empty : ChannelFacts Mailbox.empty := by
  constructor <;> simp [Mailbox.empty]

/-- A step that leaves the `TakeAgent` calls and the waiter alone keeps the facts. -/
theorem ChannelFacts.congr (facts : ChannelFacts state) (waiter : next.box.waiter = state.box.waiter)
    (takes : next.takes = state.takes) (channels : next.channels = state.channels)
    (taken : next.taken = state.taken) : ChannelFacts next := by
  constructor
  · rw [waiter, takes, channels]
    exact facts.waiter
  · rw [waiter, takes, channels]
    exact facts.alone
  · rw [takes, channels]
    exact facts.running
  · rw [takes, taken]
    exact facts.begun

theorem ChannelFacts.below (facts : ChannelFacts state) {t : ℕ}
    (waits : state.takes t = .waiting) : t < state.taken := by
  apply facts.begun
  simp [waits]

/-- The next `TakeAgent` call has not begun. -/
theorem ChannelFacts.fresh (facts : ChannelFacts state) : state.takes state.taken = .absent := by
  by_contra begun
  exact absurd (facts.begun state.taken begun) (by omega)

theorem ChannelFacts.fresh_channel (facts : ChannelFacts state) :
    state.channels state.taken = none := by
  cases channel : state.channels state.taken with
  | none => rfl
  | some n =>
      have waits := facts.running _ _ channel
      rw [facts.fresh] at waits
      cases waits

theorem ChannelFacts.hand (facts : ChannelFacts state) {t : TakeId} {n : PushId}
    (waiter : state.box.waiter = some t) : ChannelFacts (state.hand t n) := by
  constructor
  · intro t' waiter'
    simp at waiter'
  · intro t' waits empty
    rcases eq_or_ne t' t with rfl | other
    · simp at empty
    · have isWaiter := facts.alone t' waits (by simpa [other] using empty)
      rw [waiter, Option.some.injEq] at isWaiter
      exact absurd isWaiter.symm other
  · intro t' m holds
    rcases eq_or_ne t' t with rfl | other
    · exact (facts.waiter t' waiter).1
    · apply facts.running t' m
      simpa [other] using holds
  · exact facts.begun

/-- A call that does not wait begins and returns. -/
theorem ChannelFacts.returns (facts : ChannelFacts state) {box : AgentBox} {body : Option PushId}
    {busy : Bool} (waiter : box.waiter = state.box.waiter) :
    ChannelFacts (state.beginTake box (.returned body busy)) := by
  have fresh := facts.fresh
  constructor
  · intro t isWaiter
    rw [beginTake_box, waiter] at isWaiter
    have waits := facts.waiter t isWaiter
    have other : t ≠ state.taken := by
      rintro rfl
      simp [fresh] at waits
    simpa [other] using waits
  · intro t waits empty
    rw [beginTake_box, waiter]
    have other : t ≠ state.taken := by
      rintro rfl
      simp at waits
    exact facts.alone t (by simpa [other] using waits) empty
  · intro t n holds
    have waits := facts.running t n holds
    have other : t ≠ state.taken := by
      rintro rfl
      simp [fresh] at waits
    simpa [other] using waits
  · intro t begun
    rw [beginTake_taken]
    rcases eq_or_ne t state.taken with rfl | other
    · omega
    · have old := facts.begun t (by simpa [other] using begun)
      omega

/-- A call begins to wait. -/
theorem ChannelFacts.waits (facts : ChannelFacts state) (noWaiter : state.box.waiter = none) :
    ChannelFacts (state.beginTake { state.box with waiter := some state.taken } .waiting) := by
  have fresh := facts.fresh
  constructor
  · intro t isWaiter
    simp only [beginTake_box, Option.some.injEq] at isWaiter
    subst isWaiter
    simp [facts.fresh_channel]
  · intro t waits empty
    rcases eq_or_ne t state.taken with rfl | other
    · rfl
    · have isWaiter := facts.alone t (by simpa [other] using waits) empty
      simp [noWaiter] at isWaiter
  · intro t n holds
    rcases eq_or_ne t state.taken with rfl | other
    · simp
    · simpa [other] using facts.running t n holds
  · intro t begun
    rw [beginTake_taken]
    rcases eq_or_ne t state.taken with rfl | other
    · omega
    · have old := facts.begun t (by simpa [other] using begun)
      omega

/-- A call that waited is over. -/
theorem ChannelFacts.finishTake (facts : ChannelFacts state) {t : TakeId} (box : AgentBox)
    {body : Option PushId} (waits : state.takes t = .waiting)
    (waiter : ∀ t', box.waiter = some t' ↔ state.box.waiter = some t' ∧ t' ≠ t) :
    ChannelFacts ((state.setBox box).finishTake t body) := by
  constructor
  · intro t' isWaiter
    rcases (waiter t').mp isWaiter with ⟨was, other⟩
    simpa [other] using facts.waiter t' was
  · intro t' waits empty
    have other : t' ≠ t := by
      rintro rfl
      simp at waits
    apply (waiter t').mpr
    refine ⟨?_, other⟩
    apply facts.alone t'
    · simpa [other] using waits
    · simpa [other] using empty
  · intro t' n holds
    rcases eq_or_ne t' t with rfl | other
    · simp at holds
    · have waits := facts.running t' n (by simpa [other] using holds)
      simpa [other] using waits
  · intro t' begun
    rcases eq_or_ne t' t with rfl | other
    · exact facts.below waits
    · apply facts.begun t'
      simpa [other] using begun

theorem leave_waiter_iff (box : AgentBox) (t t' : TakeId) :
    (box.leave t).waiter = some t' ↔ box.waiter = some t' ∧ t' ≠ t := by
  rw [AgentBox.leave_waiter]
  split
  · rename_i isWaiter
    simp only [isWaiter, Option.some.injEq]
    grind
  · rename_i notWaiter
    grind

/-- A step only ever changes the queue, the waiter and one `TakeAgent` call at a time. -/
theorem ChannelFacts.step {action : Action} (facts : ChannelFacts state)
    (fires : state.step action = some next) : ChannelFacts next := by
  cases action with
  | pushAgent body reply =>
      simp only [Mailbox.step] at fires
      split at fires
      · rcases pushAgent_cases fires with ⟨_, rfl⟩ | ⟨_, t, waiter, channel, rfl⟩ | ⟨_, waiter, rfl⟩
        · exact facts
        · apply ChannelFacts.hand
          · apply facts.congr <;> simp
          · simpa using waiter
        · apply facts.congr <;> simp
      · cases fires
  | takeAgent =>
      rw [Mailbox.step, Option.some.injEq] at fires
      subst fires
      rcases takeAgent_cases state with ⟨item, rest, _, taken⟩ | ⟨_, _, taken⟩ | ⟨_, waiter, taken⟩
      · rw [taken]
        exact facts.returns rfl
      · rw [taken]
        exact facts.returns rfl
      · rw [taken]
        exact facts.waits waiter
  | receive t =>
      rcases receive_cases fires with ⟨n, waits, holds, rfl⟩
      apply facts.finishTake state.box waits
      intro t'
      constructor
      · intro isWaiter
        refine ⟨isWaiter, ?_⟩
        rintro rfl
        simp [(facts.waiter t' isWaiter).2] at holds
      · exact And.left
  | takeDone t =>
      rcases takeDone_cases fires with ⟨waits, ⟨late, holds, rfl⟩ | ⟨empty, rfl⟩⟩
      · exact facts.finishTake _ waits fun t' => leave_waiter_iff state.box t t'
      · exact facts.finishTake _ waits fun t' => leave_waiter_iff state.box t t'
  | replyAgent answer =>
      rcases (replyAgent_cases fires).2 with ⟨_, rfl⟩ | ⟨_, c, _, rfl⟩ | ⟨_, _, rfl⟩
      · exact facts
      · apply facts.congr <;> simp
      · apply facts.congr <;> simp
  | send k =>
      rcases send_cases fires with ⟨c, answer, _, rfl⟩
      apply facts.congr <;> rfl
  | hear c =>
      rcases hear_cases fires with ⟨n, answer, _, _, rfl⟩
      apply facts.congr <;> rfl
  | timeout c =>
      rcases timeout_cases fires with ⟨n, _, rfl⟩
      rcases cancelAgent_cases state (rpcID (state.bodies n)) with ⟨_, same⟩ | ⟨_, cancelled⟩
      · rw [same]
        apply facts.congr <;> rfl
      · rw [cancelled]
        apply facts.congr <;> simp
  | cancelAgent id =>
      rw [Mailbox.step, Option.some.injEq] at fires
      subst fires
      rcases cancelAgent_cases state id with ⟨_, same⟩ | ⟨_, cancelled⟩
      · rw [same]
        exact facts
      · rw [cancelled]
        apply facts.congr <;> simp

theorem places_congr (q : next.box.q = state.box.q) (channels : next.channels = state.channels)
    (takes : next.takes = state.takes) (taken : next.taken = state.taken)
    (discarded : next.discarded = state.discarded) (n : PushId) : next.places n = state.places n := by
  simp only [places, q, channels, takes, taken, discarded]

/-- A pushed body goes into the channel of the waiter. -/
theorem places_hand (state : Mailbox) {t : ℕ} (below : t < state.taken) (empty : state.channels t = none)
    (m n : PushId) :
    (state.hand t m).places n = state.places n + if m = n then 1 else 0 := by
  have moved := countOf_update (fun held => held = some n) state.channels (some m) below
  simp only [empty, reduceCtorEq, decide_false, Bool.false_eq_true, if_false, Option.some.injEq,
    decide_eq_true_eq] at moved
  simp only [places, hand_box_q, hand_channels, hand_takes, hand_taken, hand_discarded]
  omega

/-- A pushed body goes into the queue, and the one it drops to the discarded ones. -/
theorem places_enqueue (call : QueuedCall) (n : PushId) :
    (state.enqueue call).places n = state.places n + if call.body = n then 1 else 0 := by
  have added : ((state.enqueue call).box.q.map QueuedCall.body).count n +
      (state.enqueue call).discarded.count n =
        (state.box.q.map QueuedCall.body).count n + state.discarded.count n +
          if call.body = n then 1 else 0 := by
    rcases state.box.enqueue_q_cases call with
      ⟨dropped, rest, _, q, overflow, after⟩ | ⟨_, overflow, after⟩
    · simp only [enqueue_box, enqueue_discarded, after, overflow, q]
      simp [List.count_append, List.count_cons]
      omega
    · simp only [enqueue_box, enqueue_discarded, after, overflow]
      simp [List.count_append, List.count_cons]
      omega
  simp only [places] at added ⊢
  simp only [enqueue_channels, enqueue_takes, enqueue_taken]
  omega

/-- A call begins; the channels and the discarded bodies are as before. -/
theorem places_beginTake (facts : ChannelFacts state) (box : AgentBox) (pc : TakePc) (n : PushId) :
    (state.beginTake box pc).places n + (state.box.q.map QueuedCall.body).count n =
      state.places n + (box.q.map QueuedCall.body).count n +
        if pc.returns n then 1 else 0 := by
  have channels : countOf (fun held => decide (held = some n)) state.channels (state.taken + 1) =
      countOf (fun held => decide (held = some n)) state.channels state.taken := by
    simp [countOf_succ, facts.fresh_channel]
  have takes : countOf (TakePc.returns n) (Function.update state.takes state.taken pc) (state.taken + 1) =
        countOf (TakePc.returns n) state.takes state.taken +
          if pc.returns n then 1 else 0 := by
    rw [countOf_succ, countOf_update_of_le le_rfl, Function.update_self]
  simp only [places, beginTake_box, beginTake_channels, beginTake_takes, beginTake_taken,
    beginTake_discarded, channels, takes]
  omega

/-- A call that waited is over; what its channel held is its result, or elsewhere. -/
theorem places_finishTake (state : Mailbox) {t : ℕ} (below : t < state.taken)
    (waits : state.takes t = .waiting) (body : Option PushId) (n : PushId) :
    (state.finishTake t body).places n + (if state.channels t = some n then 1 else 0) =
      state.places n + if body = some n then 1 else 0 := by
  have channels := countOf_update (fun held => held = some n) state.channels none below
  have takes := countOf_update (TakePc.returns n) state.takes (.returned body false) below
  simp only [waits, TakePc.returns, reduceCtorEq, decide_false, Bool.false_eq_true, if_false,
    decide_eq_true_eq, add_zero] at channels takes
  simp only [places, finishTake_box, finishTake_channels, finishTake_takes, finishTake_taken,
    finishTake_discarded]
  omega

/-- `CancelAgent` moves entries of the queue to the discarded ones. -/
theorem places_cancelAgent (state : Mailbox) (id : String) (n : PushId) :
    (state.cancelAgent id).places n = state.places n := by
  rcases cancelAgent_cases state id with ⟨_, same⟩ | ⟨_, cancelled⟩
  · rw [same]
  · have parted : ((state.box.q.filter fun item => !AgentBox.cancels id item).map
        QueuedCall.body).count n +
          ((state.box.q.filter (AgentBox.cancels id)).map QueuedCall.body).count n =
            (state.box.q.map QueuedCall.body).count n := by
      have perm := (List.filter_append_perm (AgentBox.cancels id) state.box.q).map QueuedCall.body
      have counted := perm.count_eq n
      rw [List.map_append, List.count_append] at counted
      omega
    rw [cancelled]
    simp only [places, setBox_box, AgentBox.cancel_q, setBox_channels, setBox_takes, setBox_taken,
      List.count_append]
    omega

/-- A step puts a newly pushed body into one place, and keeps every other one in one place. -/
theorem places_step {action : Action} (facts : ChannelFacts state)
    (fires : state.step action = some next) (n : PushId) :
    next.places n + (if n < state.pushed then 1 else 0) =
      state.places n + if n < next.pushed then 1 else 0 := by
  cases action with
  | pushAgent body reply =>
      simp only [Mailbox.step] at fires
      split at fires
      · have kept : ∀ box : AgentBox, box.q = state.box.q →
            ((state.allocate body reply).setBox box).places n = state.places n := by
          intro box q
          apply places_congr <;> simp [q]
        rcases pushAgent_cases fires with ⟨_, rfl⟩ | ⟨_, t, waiter, channel, rfl⟩ | ⟨_, waiter, rfl⟩
        · rfl
        · rw [places_hand _ (by exact facts.below (facts.waiter t waiter).1) (by exact channel),
            kept _ (by simp)]
          simp only [hand_pushed, setBox_pushed, allocate_pushed]
          grind
        · rw [places_enqueue, kept _ (by simp)]
          simp only [enqueue_pushed, setBox_pushed, allocate_pushed]
          grind
      · cases fires
  | takeAgent =>
      rw [Mailbox.step, Option.some.injEq] at fires
      subst fires
      rcases takeAgent_cases state with ⟨item, rest, q, taken⟩ | ⟨q, _, taken⟩ | ⟨q, _, taken⟩
      · rw [taken]
        have moved := places_beginTake facts { state.box with q := rest }
          (.returned (some item.body) false) n
        simp only [q, List.map_cons, List.count_cons, TakePc.returns, Option.some.injEq, decide_eq_true_eq,
          beq_iff_eq] at moved
        simp only [beginTake_pushed]
        omega
      · rw [taken]
        have moved := places_beginTake facts state.box (.returned none true) n
        simp only [TakePc.returns, reduceCtorEq, decide_false, Bool.false_eq_true, if_false] at moved
        simp only [beginTake_pushed]
        omega
      · rw [taken]
        have moved := places_beginTake facts { state.box with waiter := some state.taken }
          .waiting n
        simp only [TakePc.returns, Bool.false_eq_true, if_false] at moved
        simp only [beginTake_pushed]
        omega
  | receive t =>
      rcases receive_cases fires with ⟨m, waits, holds, rfl⟩
      have moved := places_finishTake state (facts.below waits) waits (some m) n
      simp only [holds] at moved
      simp only [finishTake_pushed]
      omega
  | takeDone t =>
      rcases takeDone_cases fires with ⟨waits, ⟨late, holds, rfl⟩ | ⟨empty, rfl⟩⟩
      · have moved := places_finishTake (state.setBox ((state.box.leave t).requeue
          ⟨rpcID (state.bodies late), late, none⟩)) (by exact facts.below waits) waits none n
        simp only [setBox_channels, holds, Option.some.injEq, reduceCtorEq, if_false] at moved
        have requeued : (state.setBox ((state.box.leave t).requeue
            ⟨rpcID (state.bodies late), late, none⟩)).places n =
              state.places n + if late = n then 1 else 0 := by
          simp only [places, setBox_box, AgentBox.requeue_q, AgentBox.leave_q, List.map_cons,
            List.count_cons, beq_iff_eq, setBox_channels, setBox_takes, setBox_taken,
            setBox_discarded]
          omega
        simp only [finishTake_pushed, setBox_pushed]
        omega
      · have moved := places_finishTake (state.setBox (state.box.leave t))
          (by exact facts.below waits) waits none n
        simp only [setBox_channels, empty, reduceCtorEq, if_false] at moved
        have left : (state.setBox (state.box.leave t)).places n = state.places n := by
          apply places_congr <;> rfl
        simp only [finishTake_pushed, setBox_pushed]
        omega
  | replyAgent answer =>
      rcases (replyAgent_cases fires).2 with ⟨_, rfl⟩ | ⟨_, c, _, rfl⟩ | ⟨_, _, rfl⟩ <;> rfl
  | send k =>
      rcases send_cases fires with ⟨c, answer, _, rfl⟩
      rfl
  | hear c =>
      rcases hear_cases fires with ⟨m, answer, _, _, rfl⟩
      rfl
  | timeout c =>
      rcases timeout_cases fires with ⟨m, _, rfl⟩
      have kept := places_cancelAgent state (rpcID (state.bodies m)) n
      have pushed := cancelAgent_pushed state (rpcID (state.bodies m))
      simp only [pushed]
      exact congrArg (· + _) kept
  | cancelAgent id =>
      rw [Mailbox.step, Option.some.injEq] at fires
      subst fires
      rw [places_cancelAgent, cancelAgent_pushed]

theorem Conserved.empty : Conserved Mailbox.empty := by
  refine ⟨ChannelFacts.empty, ?_⟩
  intro n
  simp [Mailbox.places, Mailbox.empty, countOf_zero]

theorem Conserved.step {action : Action} (conserved : Conserved state)
    (fires : state.step action = some next) : Conserved next := by
  refine ⟨conserved.channels.step fires, ?_⟩
  intro n
  have moved := places_step conserved.channels fires n
  rw [conserved.places n] at moved
  omega

theorem Conserved.of_run {admits : Mailbox → Action → Prop} {actions : List Action}
    (run : Run Mailbox.step admits Mailbox.empty actions state) : Conserved state := by
  apply run.invariant Conserved Conserved.empty
  intro before after action conserved _ fires
  exact conserved.step fires

/-- A body that a `TakeAgent` call returned was pushed, and is not in the queue. -/
theorem Conserved.of_returned (conserved : Conserved state) {t : TakeId} {n : PushId} {busy : Bool}
    (returned : state.takes t = .returned (some n) busy) :
    n < state.pushed ∧ ∀ item ∈ state.box.q, item.body ≠ n := by
  have placed := conserved.places n
  have begun : t < state.taken := conserved.channels.begun t (by simp [returned])
  have counted : 0 < countOf (TakePc.returns n) state.takes state.taken := by
    apply countOf_pos begun
    simp [returned, TakePc.returns]
  unfold Mailbox.places at placed
  constructor
  · by_contra above
    rw [if_neg above] at placed
    omega
  · rintro item queued rfl
    have listed : 0 < (state.box.q.map QueuedCall.body).count item.body :=
      List.count_pos_iff.mpr (List.mem_map_of_mem queued)
    split at placed
    · omega
    · omega

/-- A body in the queue was pushed. -/
theorem Conserved.of_queued (conserved : Conserved state) {item : QueuedCall}
    (queued : item ∈ state.box.q) : item.body < state.pushed := by
  have placed := conserved.places item.body
  have listed : 0 < (state.box.q.map QueuedCall.body).count item.body :=
    List.count_pos_iff.mpr (List.mem_map_of_mem queued)
  unfold Mailbox.places at placed
  by_contra above
  rw [if_neg above] at placed
  omega

/-- A body in a channel was pushed. -/
theorem Conserved.of_held (conserved : Conserved state) {t : TakeId} {n : PushId}
    (holds : state.channels t = some n) : n < state.pushed := by
  have placed := conserved.places n
  have begun : t < state.taken := conserved.channels.below (conserved.channels.running t n holds)
  have counted : 0 < countOf (fun held => held = some n) state.channels state.taken := by
    apply countOf_pos begun
    simp [holds]
  unfold Mailbox.places at placed
  by_contra above
  rw [if_neg above] at placed
  omega

/-- A push never blocks on the channel of the waiter. -/
theorem ChannelFacts.push_fires (facts : ChannelFacts state) (body : Body)
    (reply : Option CallerId) : ∃ next, state.pushAgent body reply = some next := by
  unfold pushAgent
  split
  · exact ⟨_, rfl⟩
  · cases waiter : state.box.waiter with
    | none => exact ⟨_, rfl⟩
    | some t =>
        have channel := (facts.waiter t waiter).2
        exact ⟨_, by simp only [channel]; rfl⟩

theorem mem_cancelAgent_discarded {id : String} {n : PushId}
    (discarded : n ∈ (state.cancelAgent id).discarded) :
    n ∈ state.discarded ∨ ∃ item ∈ state.box.q, item.body = n ∧ item.reply.isSome = true ∧
      item.id = id := by
  rcases cancelAgent_cases state id with ⟨_, same⟩ | ⟨_, cancelled⟩
  · rw [same] at discarded
    exact Or.inl discarded
  · rw [cancelled] at discarded
    rcases List.mem_append.mp discarded with old | dropped
    · exact Or.inl old
    · right
      rcases List.mem_map.mp dropped with ⟨item, listed, body⟩
      rcases List.mem_filter.mp listed with ⟨queued, cancels⟩
      simp only [AgentBox.cancels, Bool.and_eq_true, decide_eq_true_eq] at cancels
      exact ⟨item, queued, body, cancels⟩

/-- Nothing else is ever discarded. -/
theorem discards_of_mem {action : Action} {n : PushId} (fires : state.step action = some next)
    (discarded : n ∈ next.discarded) (new : n ∉ state.discarded) : state.Discards n action := by
  cases action with
  | pushAgent body reply =>
      simp only [Mailbox.step] at fires
      split at fires
      · rcases pushAgent_cases fires with ⟨_, rfl⟩ | ⟨_, t, _, _, rfl⟩ | ⟨_, _, rfl⟩
        · exact absurd discarded new
        · exact absurd discarded new
        · simp only [enqueue_discarded, setBox_discarded, allocate_discarded, List.mem_append,
            new, false_or, Option.mem_toList, Option.map_eq_some_iff] at discarded
          rcases discarded with ⟨oldest, overflow, body⟩
          simp only [AgentBox.overflow, setBox_box, AgentBox.register_q] at overflow
          split at overflow
          · rename_i full
            exact ⟨full, oldest, overflow, body⟩
          · cases overflow
      · cases fires
  | takeAgent =>
      rw [Mailbox.step, Option.some.injEq] at fires
      subst fires
      rcases takeAgent_cases state with ⟨_, _, _, taken⟩ | ⟨_, _, taken⟩ | ⟨_, _, taken⟩
      all_goals
        rw [taken] at discarded
        exact absurd discarded new
  | receive t =>
      rcases receive_cases fires with ⟨_, _, _, rfl⟩
      exact absurd discarded new
  | takeDone t =>
      rcases (takeDone_cases fires).2 with ⟨_, _, rfl⟩ | ⟨_, rfl⟩
      · exact absurd discarded new
      · exact absurd discarded new
  | replyAgent answer =>
      rcases (replyAgent_cases fires).2 with ⟨_, rfl⟩ | ⟨_, _, _, rfl⟩ | ⟨_, _, rfl⟩
      all_goals exact absurd discarded new
  | send k =>
      rcases send_cases fires with ⟨_, _, _, rfl⟩
      exact absurd discarded new
  | hear c =>
      rcases hear_cases fires with ⟨_, _, _, _, rfl⟩
      exact absurd discarded new
  | timeout c =>
      rcases timeout_cases fires with ⟨m, awaits, rfl⟩
      exact ⟨m, awaits, (mem_cancelAgent_discarded discarded).resolve_left new⟩
  | cancelAgent id =>
      rw [Mailbox.step, Option.some.injEq] at fires
      subst fires
      exact (mem_cancelAgent_discarded discarded).resolve_left new

/-- In every reachable state a pushed body is in one place only: the queue, the channel of a
`TakeAgent` call that is still running, the result of one, or the discarded bodies, where only an
overflow or a cancellation puts it. The send on the channel of the waiter never blocks. -/
theorem pushed_body_in_one_place {actions : List Action}
    (run : Run Mailbox.step (fun _ _ => True) Mailbox.empty actions state) :
    (∀ n < state.pushed, state.places n = 1) ∧
      (∀ t n, state.channels t = some n → state.takes t = .waiting) ∧
      (∀ action next n, state.step action = some next → n ∈ next.discarded →
        n ∉ state.discarded → state.Discards n action) ∧
      ∀ body reply, ∃ next, state.pushAgent body reply = some next := by
  have conserved := Conserved.of_run run
  refine ⟨?_, conserved.channels.running, ?_, conserved.channels.push_fires⟩
  · intro n below
    rw [conserved.places n, if_pos below]
  · intro action next n fires discarded new
    exact discards_of_mem fires discarded new

/-- A JSON-RPC request with an id. -/
def request (id : String) : Body :=
  .object [("jsonrpc", "\"2.0\""), ("id", id), ("method", "\"message/send\"")]

/-- A call is pushed to a connection that gives up at this moment, and put back for the next one. -/
def latePush : List Action :=
  [.takeAgent, .pushAgent (request "1") (some 0), .takeDone 0, .takeAgent]

theorem pushed_body_in_one_place_late :
    ∃ state, Run Mailbox.step (fun _ _ => True) Mailbox.empty latePush state ∧
      state.takes 1 = .returned (some 0) false ∧ state.places 0 = 1 := by
  have ran : ((exec Mailbox.step Mailbox.empty latePush).map fun state =>
      (state.takes 1, state.pushed)) = some (.returned (some 0) false, 1) := by
    decide
  rcases Option.map_eq_some_iff.mp ran with ⟨state, executed, facts⟩
  simp only [Prod.mk.injEq] at facts
  have run := run_of_exec executed
  have placed := (pushed_body_in_one_place run).1 0 (by rw [facts.2]; exact Nat.one_pos)
  exact ⟨state, run, facts.1, placed⟩

end Facts

end Mailbox

end MikroLLM.A2A
