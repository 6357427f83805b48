import MikroLLM.A2A.Conservation

/-!
# The order of a mailbox

Bodies leave the mailbox in the order of their pushes, and nobody waits while the
queue has entries, as long as a body is not put back behind the back of another
`TakeAgent` call. The branch of `TakeAgent` that puts a late body back looks at
neither the waiter nor the length of the queue.
-/

namespace MikroLLM.A2A

open Library

namespace Mailbox

/-- The body that a `TakeAgent` call has been handed. -/
def held (state : Mailbox) (t : TakeId) : Option PushId :=
  match state.takes t with
  | .returned body _ => body
  | _ => state.channels t

/-- A late body is put back when nobody waits, the queue has room, and no `TakeAgent` call that
began later has been handed a body. -/
def requeuesInOrder (state : Mailbox) : Action → Bool
  | .takeDone t =>
      (state.channels t).isNone ||
        (state.box.waiter.isNone && state.box.q.length < agentQueueMax &&
          (List.range state.taken).all fun later => later ≤ t || (state.held later).isNone)
  | _ => true

/-- The queue is in the order of the pushes and behind everything that was handed out. -/
structure Ordered (state : Mailbox) : Prop where
  channels : ChannelFacts state
  queue : state.box.q.Pairwise fun older newer => older.body < newer.body
  behind : ∀ t n : ℕ, state.held t = some n → ∀ item ∈ state.box.q, n < item.body
  handed : ∀ t t' n n' : ℕ, t < t' → state.held t = some n → state.held t' = some n' → n < n'
  queued : ∀ item ∈ state.box.q, item.body < state.pushed
  pushed : ∀ t n : ℕ, state.held t = some n → n < state.pushed
  waiting : ∀ t : ℕ, state.box.waiter = some t →
    state.box.q = [] ∧ ∀ t' : ℕ, t < t' → state.held t' = none
  room : state.box.q.length ≤ agentQueueMax

section Held

variable {state next : Mailbox}

theorem held_congr (takes : next.takes = state.takes) (channels : next.channels = state.channels) :
    next.held = state.held := by
  funext t
  simp only [held, takes, channels]

theorem held_hand {t : TakeId} (n : PushId) (waits : state.takes t = .waiting) :
    (state.hand t n).held = Function.update state.held t (some n) := by
  funext t'
  rcases eq_or_ne t' t with rfl | other
  · simp [held, waits]
  · simp [held, other]

theorem held_finishTake (state : Mailbox) (t : TakeId) (body : Option PushId) :
    (state.finishTake t body).held = Function.update state.held t body := by
  funext t'
  rcases eq_or_ne t' t with rfl | other
  · simp [held]
  · simp [held, other]

theorem held_returns (state : Mailbox) (box : AgentBox) (body : Option PushId) (busy : Bool) :
    (state.beginTake box (.returned body busy)).held =
      Function.update state.held state.taken body := by
  funext t
  rcases eq_or_ne t state.taken with rfl | other
  · simp [held]
  · simp [held, other]

theorem held_waits (facts : ChannelFacts state) (box : AgentBox) :
    (state.beginTake box .waiting).held = state.held := by
  funext t
  rcases eq_or_ne t state.taken with rfl | other
  · simp [held, facts.fresh]
  · simp [held, other]

theorem held_eq_none (facts : ChannelFacts state) {t : ℕ} (later : state.taken ≤ t) :
    state.held t = none := by
  have absent : state.takes t = .absent := by
    by_contra begun
    have below := facts.begun t begun
    omega
  have empty : state.channels t = none := by
    cases channel : state.channels t with
    | none => rfl
    | some n =>
        have waits := facts.running t n channel
        rw [absent] at waits
        cases waits
  simp [held, absent, empty]

end Held

section Steps

variable {state next : Mailbox}

theorem Ordered.empty : Ordered Mailbox.empty := by
  refine ⟨ChannelFacts.empty, ?_, ?_, ?_, ?_, ?_, ?_, ?_⟩ <;> simp [Mailbox.empty, Mailbox.held]

/-- A step that at most takes entries out of the queue keeps the order. -/
theorem Ordered.sublist (ordered : Ordered state) (channels : ChannelFacts next)
    (q : next.box.q.Sublist state.box.q) (held : next.held = state.held)
    (waiter : next.box.waiter = state.box.waiter) (pushed : next.pushed = state.pushed) :
    Ordered next := by
  constructor
  · exact channels
  · exact ordered.queue.sublist q
  · rw [held]
    intro t n holds item queued
    exact ordered.behind t n holds item (q.subset queued)
  · rw [held]
    exact ordered.handed
  · rw [pushed]
    intro item queued
    exact ordered.queued item (q.subset queued)
  · rw [held, pushed]
    exact ordered.pushed
  · rw [held, waiter]
    intro t isWaiter
    rcases ordered.waiting t isWaiter with ⟨nothing, alone⟩
    refine ⟨?_, alone⟩
    apply List.eq_nil_of_length_eq_zero
    have shorter := q.length_le
    rw [nothing] at shorter
    simpa using shorter
  · exact q.length_le.trans ordered.room

/-- The waiter is handed a new body. -/
theorem Ordered.hand (ordered : Ordered state) {t : TakeId} (waiter : state.box.waiter = some t)
    {before : Mailbox} (channels : ChannelFacts (before.hand t state.pushed))
    (q : before.box.q = state.box.q) (takes : before.takes = state.takes)
    (sameChannels : before.channels = state.channels) (pushed : before.pushed = state.pushed + 1) :
    Ordered (before.hand t state.pushed) := by
  rcases ordered.waiting t waiter with ⟨nothing, alone⟩
  have noEntry : (before.hand t state.pushed).box.q = [] := by
    rw [hand_box_q, q, nothing]
  have held : (before.hand t state.pushed).held =
      Function.update state.held t (some state.pushed) := by
    rw [held_hand _ (by rw [takes]; exact (ordered.channels.waiter t waiter).1),
      held_congr takes sameChannels]
  constructor
  · exact channels
  · rw [noEntry]
    exact List.Pairwise.nil
  · rw [noEntry]
    simp
  · rw [held]
    intro t₁ t₂ n₁ n₂ earlier holds₁ holds₂
    rcases eq_or_ne t₁ t with rfl | other₁
    · have none₂ := alone t₂ earlier
      have other₂ : t₂ ≠ t₁ := by
        intro same
        exact absurd same (Nat.ne_of_gt earlier)
      rw [Function.update_of_ne other₂, none₂] at holds₂
      cases holds₂
    · rw [Function.update_of_ne other₁] at holds₁
      rcases eq_or_ne t₂ t with rfl | other₂
      · rw [Function.update_self, Option.some.injEq] at holds₂
        have older := ordered.pushed t₁ n₁ holds₁
        exact holds₂ ▸ older
      · rw [Function.update_of_ne other₂] at holds₂
        exact ordered.handed t₁ t₂ n₁ n₂ earlier holds₁ holds₂
  · rw [noEntry]
    simp
  · rw [held, hand_pushed, pushed]
    intro t' n holds
    rcases eq_or_ne t' t with rfl | other
    · rw [Function.update_self, Option.some.injEq] at holds
      exact holds ▸ Nat.lt_succ_self _
    · rw [Function.update_of_ne other] at holds
      exact (ordered.pushed t' n holds).trans (Nat.lt_succ_self _)
  · intro t' isWaiter
    simp at isWaiter
  · rw [noEntry]
    simp

/-- A new body goes to the end of the queue. -/
theorem Ordered.enqueue (ordered : Ordered state)
    {before : Mailbox} {call : QueuedCall} (channels : ChannelFacts (before.enqueue call))
    (q : before.box.q = state.box.q) (waiter : before.box.waiter = none)
    (held : before.held = state.held) (pushed : before.pushed = state.pushed + 1)
    (body : call.body = state.pushed) : Ordered (before.enqueue call) := by
  have kept : ∃ rest, rest.Sublist state.box.q ∧ rest.length < agentQueueMax ∧
      (before.enqueue call).box.q = rest ++ [call] := by
    have room := ordered.room
    rcases before.box.enqueue_q_cases call with ⟨dropped, rest, _, split, _, after⟩ | ⟨short, _, after⟩
    · rw [q] at split
      refine ⟨rest, ?_, ?_, after⟩
      · rw [split]
        exact List.sublist_cons_self dropped rest
      · rw [split, List.length_cons] at room
        omega
    · rw [q] at short after
      exact ⟨state.box.q, List.Sublist.refl _, short, after⟩
  rcases kept with ⟨rest, sub, short, after⟩
  have sameHeld : (before.enqueue call).held = state.held := by
    rw [← held]
    exact held_congr rfl rfl
  constructor
  · exact channels
  · rw [after, List.pairwise_append]
    refine ⟨ordered.queue.sublist sub, List.pairwise_singleton _ call, ?_⟩
    intro item listed last isLast
    rw [List.mem_singleton] at isLast
    subst isLast
    rw [body]
    exact ordered.queued item (sub.subset listed)
  · rw [sameHeld, after]
    intro t n holds item listed
    rcases List.mem_append.mp listed with old | isLast
    · exact ordered.behind t n holds item (sub.subset old)
    · rw [List.mem_singleton] at isLast
      rw [isLast, body]
      exact ordered.pushed t n holds
  · rw [sameHeld]
    exact ordered.handed
  · rw [after, enqueue_pushed, pushed]
    intro item listed
    rcases List.mem_append.mp listed with old | isLast
    · exact (ordered.queued item (sub.subset old)).trans (Nat.lt_succ_self _)
    · rw [List.mem_singleton] at isLast
      rw [isLast, body]
      exact Nat.lt_succ_self _
  · rw [sameHeld, enqueue_pushed, pushed]
    intro t n holds
    exact (ordered.pushed t n holds).trans (Nat.lt_succ_self _)
  · intro t isWaiter
    rw [enqueue_box, AgentBox.enqueue_waiter, waiter] at isWaiter
    cases isWaiter
  · rw [after, List.length_append, List.length_singleton]
    omega

/-- A `TakeAgent` call takes the oldest entry. -/
theorem Ordered.take (ordered : Ordered state) {item : QueuedCall} {rest : List QueuedCall}
    (q : state.box.q = item :: rest) :
    Ordered (state.beginTake { state.box with q := rest } (.returned (some item.body) false)) := by
  have channels := ordered.channels
  have noWaiter : state.box.waiter = none := by
    cases waiter : state.box.waiter with
    | none => rfl
    | some t =>
        have nothing := (ordered.waiting t waiter).1
        rw [q] at nothing
        cases nothing
  have sorted := ordered.queue
  rw [q, List.pairwise_cons] at sorted
  have listed : item ∈ state.box.q := by simp [q]
  have sub : rest.Sublist state.box.q := by
    rw [q]
    exact List.sublist_cons_self item rest
  constructor
  · exact channels.returns rfl
  · exact sorted.2
  · rw [held_returns]
    intro t n holds next after
    rcases eq_or_ne t state.taken with rfl | other
    · rw [Function.update_self, Option.some.injEq] at holds
      exact holds ▸ sorted.1 next after
    · rw [Function.update_of_ne other] at holds
      exact ordered.behind t n holds next (sub.subset after)
  · rw [held_returns]
    intro t₁ t₂ n₁ n₂ earlier holds₁ holds₂
    rcases eq_or_ne t₁ state.taken with rfl | other₁
    · have other₂ : t₂ ≠ state.taken := by omega
      rw [Function.update_of_ne other₂, held_eq_none channels (by omega)] at holds₂
      cases holds₂
    · rw [Function.update_of_ne other₁] at holds₁
      rcases eq_or_ne t₂ state.taken with rfl | other₂
      · rw [Function.update_self, Option.some.injEq] at holds₂
        exact holds₂ ▸ ordered.behind t₁ n₁ holds₁ item listed
      · rw [Function.update_of_ne other₂] at holds₂
        exact ordered.handed t₁ t₂ n₁ n₂ earlier holds₁ holds₂
  · intro next after
    exact ordered.queued next (sub.subset after)
  · rw [held_returns]
    intro t n holds
    rcases eq_or_ne t state.taken with rfl | other
    · rw [Function.update_self, Option.some.injEq] at holds
      exact holds ▸ ordered.queued item listed
    · rw [Function.update_of_ne other] at holds
      exact ordered.pushed t n holds
  · intro t isWaiter
    rw [beginTake_box, noWaiter] at isWaiter
    cases isWaiter
  · exact sub.length_le.trans ordered.room

/-- A `TakeAgent` call finds the queue empty and waits. -/
theorem Ordered.wait (ordered : Ordered state) (nothing : state.box.q = [])
    (noWaiter : state.box.waiter = none) :
    Ordered (state.beginTake { state.box with waiter := some state.taken } .waiting) := by
  have channels := ordered.channels
  constructor
  · exact channels.waits noWaiter
  · exact ordered.queue
  · rw [held_waits channels]
    exact ordered.behind
  · rw [held_waits channels]
    exact ordered.handed
  · exact ordered.queued
  · rw [held_waits channels]
    exact ordered.pushed
  · rw [held_waits channels]
    intro t isWaiter
    simp only [beginTake_box, Option.some.injEq] at isWaiter
    subst isWaiter
    refine ⟨nothing, ?_⟩
    intro later after
    apply held_eq_none channels
    omega
  · exact ordered.room

/-- A `TakeAgent` call gives up with nothing in its channel. -/
theorem Ordered.leave (ordered : Ordered state) {t : TakeId} (waits : state.takes t = .waiting)
    (empty : state.channels t = none)
    (channels : ChannelFacts ((state.setBox (state.box.leave t)).finishTake t none)) :
    Ordered ((state.setBox (state.box.leave t)).finishTake t none) := by
  have held : ((state.setBox (state.box.leave t)).finishTake t none).held = state.held := by
    rw [held_finishTake]
    have nothing : state.held t = none := by simp [Mailbox.held, waits, empty]
    exact (congrArg (Function.update · t none) (held_congr rfl rfl)).trans
      (Function.update_eq_self_iff.mpr nothing.symm)
  constructor
  · exact channels
  · exact ordered.queue
  · rw [held]
    exact ordered.behind
  · rw [held]
    exact ordered.handed
  · exact ordered.queued
  · rw [held]
    exact ordered.pushed
  · rw [held]
    intro t' isWaiter
    exact ordered.waiting t' ((leave_waiter_iff state.box t t').mp isWaiter).1
  · exact ordered.room

/-- A late body is put back. -/
theorem Ordered.requeue (ordered : Ordered state) {t late : ℕ} {id : String}
    (channels : ChannelFacts ((state.setBox
      ((state.box.leave t).requeue ⟨id, late, none⟩)).finishTake t none))
    (holds : state.held t = some late) (noWaiter : state.box.waiter = none)
    (short : state.box.q.length < agentQueueMax)
    (last : ∀ later : ℕ, t < later → state.held later = none) :
    Ordered ((state.setBox ((state.box.leave t).requeue ⟨id, late, none⟩)).finishTake t none) := by
  have held : ((state.setBox ((state.box.leave t).requeue ⟨id, late, none⟩)).finishTake t
      none).held = Function.update state.held t none := by
    rw [held_finishTake]
    exact congrArg (Function.update · t none) (held_congr rfl rfl)
  constructor
  · exact channels
  · simp only [finishTake_box, setBox_box, AgentBox.requeue_q, AgentBox.leave_q]
    exact List.pairwise_cons.mpr ⟨ordered.behind t late holds, ordered.queue⟩
  · rw [held]
    simp only [finishTake_box, setBox_box, AgentBox.requeue_q, AgentBox.leave_q]
    intro t' n holds' item listed
    have other : t' ≠ t := by
      rintro rfl
      simp at holds'
    rw [Function.update_of_ne other] at holds'
    rcases List.mem_cons.mp listed with rfl | queued
    · have earlier : t' < t := by
        by_contra notEarlier
        have none' := last t' (by omega)
        rw [none'] at holds'
        cases holds'
      exact ordered.handed t' t n late earlier holds' holds
    · exact ordered.behind t' n holds' item queued
  · rw [held]
    intro t₁ t₂ n₁ n₂ earlier holds₁ holds₂
    have other₁ : t₁ ≠ t := by
      rintro rfl
      simp at holds₁
    have other₂ : t₂ ≠ t := by
      rintro rfl
      simp at holds₂
    rw [Function.update_of_ne other₁] at holds₁
    rw [Function.update_of_ne other₂] at holds₂
    exact ordered.handed t₁ t₂ n₁ n₂ earlier holds₁ holds₂
  · simp only [finishTake_box, setBox_box, AgentBox.requeue_q, AgentBox.leave_q]
    intro item listed
    rcases List.mem_cons.mp listed with rfl | queued
    · exact ordered.pushed t late holds
    · exact ordered.queued item queued
  · rw [held]
    intro t' n holds'
    have other : t' ≠ t := by
      rintro rfl
      simp at holds'
    rw [Function.update_of_ne other] at holds'
    exact ordered.pushed t' n holds'
  · intro t' isWaiter
    simp [noWaiter] at isWaiter
  · simp only [finishTake_box, setBox_box, AgentBox.requeue_q, AgentBox.leave_q, List.length_cons]
    omega

/-- Every step keeps the order, as long as a late body is put back in order. -/
theorem Ordered.step {action : Action} (ordered : Ordered state)
    (admitted : state.requeuesInOrder action = true) (fires : state.step action = some next) :
    Ordered next := by
  have channels := ordered.channels.step fires
  cases action with
  | pushAgent body reply =>
      simp only [Mailbox.step] at fires
      split at fires
      · rcases pushAgent_cases fires with ⟨_, rfl⟩ | ⟨_, t, waiter, _, rfl⟩ | ⟨_, waiter, rfl⟩
        · exact ordered
        · apply ordered.hand waiter channels <;> simp
        · apply ordered.enqueue channels
          · simp
          · simpa using waiter
          · exact held_congr rfl rfl
          · rfl
          · rfl
      · cases fires
  | takeAgent =>
      rw [Mailbox.step, Option.some.injEq] at fires
      subst fires
      rcases takeAgent_cases state with ⟨item, rest, q, taken⟩ | ⟨_, _, taken⟩ | ⟨q, waiter, taken⟩
      · rw [taken]
        exact ordered.take q
      · rw [taken] at channels ⊢
        apply ordered.sublist channels
        · exact List.Sublist.refl _
        · rw [held_returns, Function.update_eq_self_iff]
          exact (held_eq_none ordered.channels le_rfl).symm
        · rfl
        · rfl
      · rw [taken]
        exact ordered.wait q waiter
  | receive t =>
      rcases receive_cases fires with ⟨n, waits, holds, rfl⟩
      apply ordered.sublist channels
      · exact List.Sublist.refl _
      · rw [held_finishTake, Function.update_eq_self_iff]
        simp [held, waits, holds]
      · rfl
      · rfl
  | takeDone t =>
      rcases takeDone_cases fires with ⟨waits, ⟨late, holds, rfl⟩ | ⟨empty, rfl⟩⟩
      · simp only [requeuesInOrder, holds, Option.isNone_some, Bool.false_or, Bool.and_eq_true,
          Option.isNone_iff_eq_none, decide_eq_true_eq, List.all_eq_true, List.mem_range,
          Bool.or_eq_true] at admitted
        rcases admitted with ⟨⟨noWaiter, short⟩, last⟩
        apply ordered.requeue channels
        · simp [held, waits, holds]
        · exact noWaiter
        · exact short
        · intro later after
          by_cases begun : later < state.taken
          · exact (last later begun).resolve_left (by omega)
          · exact held_eq_none ordered.channels (by omega)
      · exact ordered.leave waits empty channels
  | replyAgent answer =>
      rcases (replyAgent_cases fires).2 with ⟨_, rfl⟩ | ⟨_, _, _, rfl⟩ | ⟨_, _, rfl⟩
      · exact ordered
      · exact ordered.sublist channels (List.Sublist.refl _) rfl rfl rfl
      · exact ordered.sublist channels (List.Sublist.refl _) rfl rfl rfl
  | send k =>
      rcases send_cases fires with ⟨_, _, _, rfl⟩
      exact ordered.sublist channels (List.Sublist.refl _) rfl rfl rfl
  | hear c =>
      rcases hear_cases fires with ⟨_, _, _, _, rfl⟩
      exact ordered.sublist channels (List.Sublist.refl _) rfl rfl rfl
  | timeout c =>
      rcases timeout_cases fires with ⟨m, _, rfl⟩
      rcases cancelAgent_cases state (rpcID (state.bodies m)) with ⟨_, same⟩ | ⟨_, cancelled⟩
      · rw [same] at channels ⊢
        exact ordered.sublist channels (List.Sublist.refl _) rfl rfl rfl
      · rw [cancelled] at channels ⊢
        exact ordered.sublist channels List.filter_sublist rfl rfl rfl
  | cancelAgent id =>
      rw [Mailbox.step, Option.some.injEq] at fires
      subst fires
      rcases cancelAgent_cases state id with ⟨_, same⟩ | ⟨_, cancelled⟩
      · rw [same]
        exact ordered
      · rw [cancelled] at channels ⊢
        exact ordered.sublist channels List.filter_sublist rfl rfl rfl

end Steps

section Runs

/-- In a run that puts late bodies back in order, no `TakeAgent` call waits while the queue has
entries, the queue is never over its maximum, and `TakeAgent` calls return bodies in the order in
which they were pushed. -/
theorem mailbox_in_order {actions : List Action} {state : Mailbox}
    (run : Run Mailbox.step (fun state action => state.requeuesInOrder action = true)
      Mailbox.empty actions state) :
    (∀ t, state.takes t = .waiting → state.channels t = none → state.box.q = []) ∧
      state.box.q.length ≤ agentQueueMax ∧
      ∀ (t t' n n' : ℕ) (busy busy' : Bool), t < t' → state.takes t = .returned (some n) busy →
        state.takes t' = .returned (some n') busy' → n < n' := by
  have ordered : Ordered state := by
    apply run.invariant Ordered Ordered.empty
    intro before after action ordered admitted fires
    exact ordered.step admitted fires
  refine ⟨?_, ordered.room, ?_⟩
  · intro t waits empty
    exact (ordered.waiting t (ordered.channels.alone t waits empty)).1
  · intro t t' n n' busy busy' earlier returned returned'
    apply ordered.handed t t' n n' earlier
    · simp [held, returned]
    · simp [held, returned']

/-- A late body is put back and taken, and a later push is taken after it. -/
def latePushes : List Action :=
  latePush ++ [.pushAgent (request "2") none, .takeAgent]

theorem mailbox_in_order_late :
    ∃ state, Run Mailbox.step (fun state action => state.requeuesInOrder action = true)
        Mailbox.empty latePushes state ∧ state.takes 1 = .returned (some 0) false ∧
      state.takes 2 = .returned (some 1) false ∧ state.box.q.length ≤ agentQueueMax := by
  have ran : ((execWhen Mailbox.step requeuesInOrder Mailbox.empty latePushes).map fun state =>
      (state.takes 1, state.takes 2)) =
        some (.returned (some 0) false, .returned (some 1) false) := by
    decide
  rcases Option.map_eq_some_iff.mp ran with ⟨state, executed, facts⟩
  simp only [Prod.mk.injEq] at facts
  have run := run_of_execWhen executed
  exact ⟨state, run, facts.1, facts.2, (mailbox_in_order run).2.1⟩

/-- A connection that gives up finds that the next one is already waiting. -/
def waiterTaken : List Action :=
  [.takeAgent, .pushAgent (request "1") none, .takeAgent, .takeDone 0]

/-- A connection that gives up finds the queue full. -/
def queueFull : List Action :=
  [.takeAgent] ++ List.replicate (agentQueueMax + 1) (.pushAgent (request "1") none) ++
    [.takeDone 0]

/-- A connection that gives up finds that a later push has been delivered. -/
def overtaken : List Action :=
  [.takeAgent, .pushAgent (request "1") none, .takeAgent, .pushAgent (request "2") none,
    .takeDone 0, .receive 1, .takeAgent]

/-- Without the condition a `TakeAgent` call waits next to a queued body, the queue has 33
entries, and the second push is returned before the first. -/
theorem not_mailbox_in_order :
    (∃ state, Run Mailbox.step (fun _ _ => True) Mailbox.empty waiterTaken state ∧
        state.takes 1 = .waiting ∧ state.channels 1 = none ∧ state.box.q.length = 1) ∧
      (∃ state, Run Mailbox.step (fun _ _ => True) Mailbox.empty queueFull state ∧
        state.box.q.length = 33) ∧
      ∃ state, Run Mailbox.step (fun _ _ => True) Mailbox.empty overtaken state ∧
        state.takes 1 = .returned (some 1) false ∧ state.takes 2 = .returned (some 0) false := by
  refine ⟨?_, ?_, ?_⟩
  · have ran : ((exec Mailbox.step Mailbox.empty waiterTaken).map fun state =>
        (state.takes 1, state.channels 1, state.box.q.length)) = some (.waiting, none, 1) := by
      decide
    rcases Option.map_eq_some_iff.mp ran with ⟨state, executed, facts⟩
    simp only [Prod.mk.injEq] at facts
    exact ⟨state, run_of_exec executed, facts⟩
  · have ran : ((exec Mailbox.step Mailbox.empty queueFull).map fun state =>
        state.box.q.length) = some 33 := by
      decide
    rcases Option.map_eq_some_iff.mp ran with ⟨state, executed, length⟩
    exact ⟨state, run_of_exec executed, length⟩
  · have ran : ((exec Mailbox.step Mailbox.empty overtaken).map fun state =>
        (state.takes 1, state.takes 2)) =
          some (.returned (some 1) false, .returned (some 0) false) := by
      decide
    rcases Option.map_eq_some_iff.mp ran with ⟨state, executed, facts⟩
    simp only [Prod.mk.injEq] at facts
    exact ⟨state, run_of_exec executed, facts⟩

end Runs

end Mailbox

end MikroLLM.A2A
