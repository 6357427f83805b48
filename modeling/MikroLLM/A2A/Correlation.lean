import MikroLLM.A2A.Conservation

/-!
# Replies find their callers

Reply waiters are kept by the id that the caller chose. Among calls that wait at
the same time and have different ids every reply goes to the call it answers, and
what one call does when it times out or is dropped concerns no other call.
-/

namespace MikroLLM.A2A

open Library

namespace Mailbox

/-- The caller of a push waits for its reply. -/
def awaited (state : Mailbox) (m : PushId) : Bool :=
  (state.owner m).any fun c => state.callers c = .awaiting m

/-- A call comes with an id that no waiting call has; and the agent posts an id that a waiting call
has only as the reply to that call. -/
def idsDistinct (state : Mailbox) : Action → Bool
  | .pushAgent body (some _) =>
      rpcID body = "" ||
        (List.range state.pushed).all fun m =>
          !state.awaited m || rpcID (state.bodies m) ≠ rpcID body
  | .replyAgent answer =>
      (List.range state.pushed).all fun m =>
        !state.awaited m || rpcID (state.bodies m) ≠ rpcID answer.body || answer.answers = some m
  | _ => true

/-- The answer was posted in reply to the call, which the agent had been delivered. -/
structure RepliesTo (state : Mailbox) (answer : Answer) (m : PushId) : Prop where
  answers : answer.answers = some m
  delivered : ∃ t, state.takes t = .returned (some m) false
  id : rpcID answer.body = rpcID (state.bodies m)

/-- A step leaves the reply waiters and the queued bodies of all calls but its own. -/
structure SparesOthers (state next : Mailbox) (own : PushId → Prop) : Prop where
  waiters : ∀ id c m, state.box.waitReply id = some c → state.callers c = .awaiting m → ¬own m →
    next.box.waitReply id = some c
  queue : ∀ item ∈ state.box.q, ¬own item.body → item ∈ next.box.q

/-- A reply is on its way to the caller, or in its channel. -/
def Pending (state : Mailbox) (c : CallerId) (answer : Answer) : Prop :=
  state.replies c = some answer ∨ (c, answer) ∈ state.sends

structure Correlated (state : Mailbox) : Prop where
  owned : ∀ c m, state.callers c = .awaiting m → m < state.pushed ∧ state.owner m = some c
  distinct : ∀ c c' m m', state.callers c = .awaiting m → state.callers c' = .awaiting m' →
    rpcID (state.bodies m) = rpcID (state.bodies m') → rpcID (state.bodies m) ≠ "" → c = c'
  registered : ∀ id c, state.box.waitReply id = some c →
    id ≠ "" ∧ ∃ m, state.callers c = .awaiting m ∧ rpcID (state.bodies m) = id
  entries : ∀ item ∈ state.box.q, item.body < state.pushed ∧
    item.id = rpcID (state.bodies item.body) ∧ ∀ c, item.reply = some c → item.id ≠ "" →
      state.callers c = .awaiting item.body
  pending : ∀ c answer, state.Pending c answer → state.callers c ≠ .idle ∧
    (∀ id, state.box.waitReply id ≠ some c) ∧
      ∀ m, state.callers c = .awaiting m → state.RepliesTo answer m
  answered : ∀ c answer m, state.callers c = .answered m answer → state.RepliesTo answer m

section Steps

variable {state next : Mailbox}

theorem Correlated.empty : Correlated Mailbox.empty := by
  constructor <;> simp [Mailbox.empty, Pending]

/-- What was posted in reply to a call stays that. -/
theorem RepliesTo.mono {answer : Answer} {m : PushId} (replies : state.RepliesTo answer m)
    (bodies : next.bodies m = state.bodies m)
    (takes : ∀ t n, state.takes t = .returned (some n) false →
      next.takes t = .returned (some n) false) : next.RepliesTo answer m := by
  rcases replies with ⟨answers, ⟨t, returned⟩, id⟩
  refine ⟨answers, ⟨t, takes t m returned⟩, ?_⟩
  rw [bodies]
  exact id

/-- A step that neither begins nor ends a call, nor posts a reply. -/
theorem Correlated.frame (correlated : Correlated state) (callers : next.callers = state.callers)
    (owner : next.owner = state.owner) (bodies : next.bodies = state.bodies)
    (pushed : next.pushed = state.pushed)
    (pending : ∀ c answer, next.Pending c answer → state.Pending c answer)
    (takes : ∀ t n, state.takes t = .returned (some n) false →
      next.takes t = .returned (some n) false)
    (waitReply : ∀ id c, next.box.waitReply id = some c → state.box.waitReply id = some c)
    (entries : ∀ item ∈ next.box.q, item ∈ state.box.q ∨
      (item.body < state.pushed ∧ item.id = rpcID (state.bodies item.body) ∧
        ∀ c, item.reply = some c → item.id ≠ "" → state.callers c = .awaiting item.body)) :
    Correlated next := by
  constructor
  · rw [callers, owner, pushed]
    exact correlated.owned
  · rw [callers, bodies]
    exact correlated.distinct
  · rw [callers, bodies]
    intro id c isRegistered
    exact correlated.registered id c (waitReply id c isRegistered)
  · rw [callers, bodies, pushed]
    intro item queued
    rcases entries item queued with old | new
    · exact correlated.entries item old
    · exact new
  · rw [callers]
    intro c answer isPending
    rcases correlated.pending c answer (pending c answer isPending) with ⟨busy, free, replies⟩
    refine ⟨busy, ?_, ?_⟩
    · intro id isRegistered
      exact free id (waitReply id c isRegistered)
    · intro m awaits
      exact (replies m awaits).mono (by rw [bodies]) takes
  · rw [callers]
    intro c answer m answered
    exact (correlated.answered c answer m answered).mono (by rw [bodies]) takes

/-- A caller that awaits a call after a push awaited it before, or is the one that pushed it. -/
theorem allocate_callers_cases (body : Body) {reply : Option CallerId} {c : CallerId} {m : PushId}
    (awaits : (state.allocate body reply).callers c = .awaiting m) :
    (reply = some c ∧ m = state.pushed) ∨ (reply ≠ some c ∧ state.callers c = .awaiting m) := by
  cases reply with
  | none => exact Or.inr ⟨by simp, awaits⟩
  | some caller =>
      simp only [allocate_callers] at awaits
      rcases eq_or_ne c caller with rfl | other
      · rw [Function.update_self, CallerPc.awaiting.injEq] at awaits
        exact Or.inl ⟨rfl, awaits.symm⟩
      · rw [Function.update_of_ne other] at awaits
        exact Or.inr ⟨by simpa using other.symm, awaits⟩

theorem allocate_callers_of_ne (state : Mailbox) (body : Body) {reply : Option CallerId} {c : CallerId}
    (other : reply ≠ some c) : (state.allocate body reply).callers c = state.callers c := by
  cases reply with
  | none => rfl
  | some caller =>
      have distinct : c ≠ caller := by
        rintro rfl
        exact other rfl
      simp [distinct]

theorem allocate_bodies_of_lt (body : Body) (reply : Option CallerId) {m : ℕ}
    (old : m < state.pushed) : (state.allocate body reply).bodies m = state.bodies m := by
  simp [Nat.ne_of_lt old]

/-- A call comes with an id that no waiting call has. -/
theorem Correlated.allocate (correlated : Correlated state) (conserved : Conserved state)
    {body : Body} {reply : Option CallerId} (idle : ∀ c, reply = some c → state.callers c = .idle)
    (fresh : ∀ c c' m, reply = some c → rpcID body ≠ "" → state.callers c' = .awaiting m →
      rpcID (state.bodies m) ≠ rpcID body) :
    Correlated ((state.allocate body reply).setBox (state.box.register (rpcID body) reply)) := by
  have notNew : ∀ c, state.callers c ≠ .idle → reply ≠ some c := by
    intro c busy same
    exact busy (idle c same)
  have replies : ∀ answer m, state.RepliesTo answer m →
      ((state.allocate body reply).setBox
        (state.box.register (rpcID body) reply)).RepliesTo answer m := by
    intro answer m replies
    rcases replies.delivered with ⟨t, returned⟩
    exact replies.mono (allocate_bodies_of_lt body reply (conserved.of_returned returned).1)
      fun _ _ => id
  constructor
  · intro c m awaits
    rcases allocate_callers_cases body awaits with ⟨rfl, rfl⟩ | ⟨_, awaited⟩
    · simp
    · rcases correlated.owned c m awaited with ⟨old, owner⟩
      exact ⟨old.trans (Nat.lt_succ_self _), by simpa [Nat.ne_of_lt old] using owner⟩
  · intro c c' m m' awaits awaits' same hasId
    simp only [setBox_bodies] at same hasId
    rcases allocate_callers_cases body awaits with ⟨new, rfl⟩ | ⟨_, awaited⟩
    · rcases allocate_callers_cases body awaits' with ⟨new', rfl⟩ | ⟨_, awaited'⟩
      · exact Option.some.inj (new.symm.trans new')
      · rw [allocate_bodies_of_lt body reply (correlated.owned c' m' awaited').1] at same
        simp only [allocate_bodies, Function.update_self] at same hasId
        exact absurd same.symm (fresh c c' m' new hasId awaited')
    · have old := allocate_bodies_of_lt body reply (correlated.owned c m awaited).1
      rw [old] at same hasId
      rcases allocate_callers_cases body awaits' with ⟨new', rfl⟩ | ⟨_, awaited'⟩
      · simp only [allocate_bodies, Function.update_self] at same
        exact absurd same (fresh c' c m new' (same ▸ hasId) awaited)
      · rw [allocate_bodies_of_lt body reply (correlated.owned c' m' awaited').1] at same
        exact correlated.distinct c c' m m' awaited awaited' same hasId
  · intro id c isRegistered
    rcases AgentBox.register_waitReply_cases isRegistered with ⟨rfl, rfl, hasId⟩ | old
    · exact ⟨hasId, state.pushed, by simp, by simp⟩
    · rcases correlated.registered id c old with ⟨hasId, m, awaits, same⟩
      refine ⟨hasId, m, ?_, ?_⟩
      · exact (allocate_callers_of_ne state body (notNew c (by simp [awaits]))).trans awaits
      · rw [← same]
        exact congrArg rpcID (allocate_bodies_of_lt body reply (correlated.owned c m awaits).1)
  · intro item queued
    simp only [setBox_box, AgentBox.register_q] at queued
    rcases correlated.entries item queued with ⟨below, id, waits⟩
    refine ⟨below.trans (Nat.lt_succ_self _), ?_, ?_⟩
    · rw [id]
      exact (congrArg rpcID (allocate_bodies_of_lt body reply below)).symm
    · intro c isReply hasId
      have awaits := waits c isReply hasId
      exact (allocate_callers_of_ne state body (notNew c (by simp [awaits]))).trans awaits
  · intro c answer isPending
    rcases correlated.pending c answer isPending with ⟨busy, free, repliesTo⟩
    have same := allocate_callers_of_ne state body (notNew c busy)
    refine ⟨?_, ?_, ?_⟩
    · rw [setBox_callers, same]
      exact busy
    · intro id isRegistered
      rcases AgentBox.register_waitReply_cases isRegistered with ⟨new, _, _⟩ | old
      · exact notNew c busy new
      · exact free id old
    · intro m awaits
      rw [setBox_callers, same] at awaits
      exact replies answer m (repliesTo m awaits)
  · intro c answer m answered
    rw [setBox_callers] at answered
    by_cases new : reply = some c
    · subst new
      simp at answered
    · rw [allocate_callers_of_ne state body new] at answered
      exact replies answer m (correlated.answered c answer m answered)

/-- A call ends; its waiter and its queued body are gone, or never were there. -/
theorem Correlated.close (correlated : Correlated state) {c : CallerId} {m : PushId}
    (awaits : state.callers c = .awaiting m) {pc : CallerPc}
    (callers : next.callers = Function.update state.callers c pc)
    (notAwaits : ∀ m', pc ≠ .awaiting m') (busy : pc ≠ .idle)
    (answered : ∀ answer m', pc = .answered m' answer → state.RepliesTo answer m')
    (owner : next.owner = state.owner) (bodies : next.bodies = state.bodies)
    (pushed : next.pushed = state.pushed) (takes : next.takes = state.takes)
    (pending : ∀ c answer, next.Pending c answer → state.Pending c answer)
    (waitReply : ∀ id c', next.box.waitReply id = some c' →
      state.box.waitReply id = some c' ∧ c' ≠ c)
    (entries : ∀ item ∈ next.box.q, item ∈ state.box.q ∧ (item.reply = some c → item.id = "")) :
    Correlated next := by
  have mono : ∀ answer m, state.RepliesTo answer m → next.RepliesTo answer m := by
    intro answer m replies
    apply replies.mono
    · rw [bodies]
    · intro t n returned
      rw [takes]
      exact returned
  have others : ∀ c' m', next.callers c' = .awaiting m' → state.callers c' = .awaiting m' := by
    intro c' m' awaits'
    rw [callers] at awaits'
    rcases eq_or_ne c' c with rfl | other
    · rw [Function.update_self] at awaits'
      exact absurd awaits' (notAwaits m')
    · rwa [Function.update_of_ne other] at awaits'
  constructor
  · rw [owner, pushed]
    intro c' m' awaits'
    exact correlated.owned c' m' (others c' m' awaits')
  · rw [bodies]
    intro c₁ c₂ m₁ m₂ awaits₁ awaits₂
    exact correlated.distinct c₁ c₂ m₁ m₂ (others c₁ m₁ awaits₁) (others c₂ m₂ awaits₂)
  · rw [bodies, callers]
    intro id c' isRegistered
    rcases waitReply id c' isRegistered with ⟨old, other⟩
    rw [Function.update_of_ne other]
    exact correlated.registered id c' old
  · rw [pushed, bodies, callers]
    intro item queued
    rcases entries item queued with ⟨old, noReply⟩
    rcases correlated.entries item old with ⟨below, id, waits⟩
    refine ⟨below, id, ?_⟩
    intro c' isReply hasId
    have other : c' ≠ c := by
      rintro rfl
      exact hasId (noReply isReply)
    rw [Function.update_of_ne other]
    exact waits c' isReply hasId
  · intro c' answer isPending
    rcases correlated.pending c' answer (pending c' answer isPending) with ⟨busy', free, replies⟩
    refine ⟨?_, ?_, ?_⟩
    · rw [callers]
      rcases eq_or_ne c' c with rfl | other
      · rw [Function.update_self]
        exact busy
      · rw [Function.update_of_ne other]
        exact busy'
    · intro id isRegistered
      exact free id (waitReply id c' isRegistered).1
    · intro m' awaits'
      exact mono answer m' (replies m' (others c' m' awaits'))
  · intro c' answer m' isAnswered
    rw [callers] at isAnswered
    apply mono
    rcases eq_or_ne c' c with rfl | other
    · rw [Function.update_self] at isAnswered
      exact answered answer m' isAnswered
    · rw [Function.update_of_ne other] at isAnswered
      exact correlated.answered c' answer m' isAnswered

/-- A caller receives the reply in its channel. -/
theorem Correlated.hear (correlated : Correlated state) (conserved : Conserved state)
    {c : CallerId} {m : PushId} {answer : Answer} (awaits : state.callers c = .awaiting m)
    (replied : state.replies c = some answer) :
    Correlated { state with
      callers := Function.update state.callers c (.answered m answer)
      replies := Function.update state.replies c none } := by
  rcases correlated.pending c answer (Or.inl replied) with ⟨_, free, replies⟩
  have isReply := replies m awaits
  apply correlated.close awaits rfl
  · simp
  · simp
  · intro answer' m' same
    simp only [CallerPc.answered.injEq] at same
    rw [← same.1, ← same.2]
    exact isReply
  · rfl
  · rfl
  · rfl
  · rfl
  · intro c' answer' isPending
    rcases isPending with inChannel | onItsWay
    · rcases eq_or_ne c' c with rfl | other
      · simp at inChannel
      · exact Or.inl (by simpa [other] using inChannel)
    · exact Or.inr onItsWay
  · intro id c' isRegistered
    refine ⟨isRegistered, ?_⟩
    rintro rfl
    exact free id isRegistered
  · intro item queued
    refine ⟨queued, ?_⟩
    intro mine
    -- A delivered body is not in the queue.
    by_contra hasId
    have same := (correlated.entries item queued).2.2 c mine hasId
    rw [awaits, CallerPc.awaiting.injEq] at same
    rcases isReply.delivered with ⟨t, returned⟩
    exact (conserved.of_returned returned).2 item queued same.symm

/-- A caller gives up, and takes its waiter and its queued body with it. -/
theorem Correlated.timeout (correlated : Correlated state) {c : CallerId} {m : PushId}
    (awaits : state.callers c = .awaiting m) :
    Correlated { state.cancelAgent (rpcID (state.bodies m)) with
      callers := Function.update state.callers c (.timedOut m) } := by
  have mine : ∀ id, state.box.waitReply id = some c → id = rpcID (state.bodies m) := by
    intro id isRegistered
    rcases correlated.registered id c isRegistered with ⟨_, m', awaits', same⟩
    rw [awaits, CallerPc.awaiting.injEq] at awaits'
    rw [awaits']
    exact same.symm
  have queued : ∀ item ∈ state.box.q, item.reply = some c → item.id ≠ "" →
      item.id = rpcID (state.bodies m) := by
    intro item queued isReply hasId
    rcases correlated.entries item queued with ⟨_, id, waits⟩
    have same := waits c isReply hasId
    rw [awaits, CallerPc.awaiting.injEq] at same
    rw [id, same]
  rcases cancelAgent_cases state (rpcID (state.bodies m)) with ⟨noId, same⟩ | ⟨_, cancelled⟩
  · rw [same]
    apply correlated.close awaits rfl
    · simp
    · simp
    · simp
    · rfl
    · rfl
    · rfl
    · rfl
    · exact fun _ _ => id
    · intro id c' isRegistered
      refine ⟨isRegistered, ?_⟩
      rintro rfl
      exact (correlated.registered id c' isRegistered).1 ((mine id isRegistered).trans noId)
    · intro item listed
      refine ⟨listed, ?_⟩
      intro isReply
      by_contra hasId
      exact hasId ((queued item listed isReply hasId).trans noId)
  · rw [cancelled]
    apply correlated.close awaits rfl
    · simp
    · simp
    · simp
    · rfl
    · rfl
    · rfl
    · rfl
    · exact fun _ _ => id
    · intro id c' isRegistered
      simp only [setBox_box, AgentBox.cancel_waitReply] at isRegistered
      have other : id ≠ rpcID (state.bodies m) := by
        rintro rfl
        simp at isRegistered
      rw [Function.update_of_ne other] at isRegistered
      refine ⟨isRegistered, ?_⟩
      rintro rfl
      exact other (mine id isRegistered)
    · intro item listed
      simp only [setBox_box, AgentBox.cancel_q, List.mem_filter] at listed
      refine ⟨listed.1, ?_⟩
      intro isReply
      by_contra hasId
      have same := queued item listed.1 isReply hasId
      simp [AgentBox.cancels, isReply, same] at listed

theorem Correlated.awaited (correlated : Correlated state) {c : CallerId} {m : PushId}
    (awaits : state.callers c = .awaiting m) : m < state.pushed ∧ state.awaited m = true := by
  rcases correlated.owned c m awaits with ⟨below, owner⟩
  exact ⟨below, by simp [Mailbox.awaited, owner, awaits]⟩

theorem delivered_iff {n : PushId} (facts : ChannelFacts state) :
    state.delivered n = true ↔ ∃ t, state.takes t = .returned (some n) false := by
  simp only [delivered, List.any_eq_true, List.mem_range, decide_eq_true_eq]
  constructor
  · rintro ⟨t, _, returned⟩
    exact ⟨t, returned⟩
  · rintro ⟨t, returned⟩
    exact ⟨t, facts.begun t (by simp [returned]), returned⟩

/-- The agent posts an id, and the call that waits with it is the one it answers. -/
theorem Correlated.reply (correlated : Correlated state) (facts : ChannelFacts state)
    {answer : Answer} {c : CallerId}
    (admitted : state.idsDistinct (.replyAgent answer) = true)
    (honest : (answer.answers.all fun n =>
      state.delivered n && rpcID (state.bodies n) = rpcID answer.body) = true)
    (registered : state.box.waitReply (rpcID answer.body) = some c) :
    Correlated { state.setBox (state.box.forget (rpcID answer.body)) with
      sends := state.sends ++ [(c, answer)] } := by
  rcases correlated.registered _ c registered with ⟨hasId, m, awaits, same⟩
  have repliesTo : state.RepliesTo answer m := by
    rcases correlated.awaited awaits with ⟨below, awaited⟩
    simp only [idsDistinct, List.all_eq_true, List.mem_range] at admitted
    have answers := admitted m below
    simp only [awaited, same, Bool.not_true, Bool.false_or, ne_eq, not_true_eq_false, decide_false,
      decide_eq_true_eq] at answers
    simp only [answers, Option.all_some, Bool.and_eq_true, decide_eq_true_eq] at honest
    exact ⟨answers, (delivered_iff facts).mp honest.1, same.symm⟩
  have forgotten : ∀ id c', Function.update state.box.waitReply (rpcID answer.body) none id =
      some c' → state.box.waitReply id = some c' ∧ id ≠ rpcID answer.body := by
    intro id c' isRegistered
    have other : id ≠ rpcID answer.body := by
      rintro rfl
      simp at isRegistered
    rw [Function.update_of_ne other] at isRegistered
    exact ⟨isRegistered, other⟩
  have mono : ∀ answer' m', state.RepliesTo answer' m' →
      Mailbox.RepliesTo { state.setBox (state.box.forget (rpcID answer.body)) with
        sends := state.sends ++ [(c, answer)] } answer' m' := by
    intro answer' m' replies
    exact replies.mono rfl fun _ _ => id
  constructor
  · exact correlated.owned
  · exact correlated.distinct
  · intro id c' isRegistered
    exact correlated.registered id c' (forgotten id c' isRegistered).1
  · exact correlated.entries
  · intro c' answer' isPending
    have cases' : state.Pending c' answer' ∨ (c' = c ∧ answer' = answer) := by
      rcases isPending with inChannel | onItsWay
      · exact Or.inl (Or.inl inChannel)
      · rcases List.mem_append.mp onItsWay with old | new
        · exact Or.inl (Or.inr old)
        · rw [List.mem_singleton, Prod.mk.injEq] at new
          exact Or.inr new
    rcases cases' with old | ⟨rfl, rfl⟩
    · rcases correlated.pending c' answer' old with ⟨busy, free, replies⟩
      refine ⟨busy, ?_, ?_⟩
      · intro id isRegistered
        exact free id (forgotten id c' isRegistered).1
      · intro m' awaits'
        exact mono answer' m' (replies m' awaits')
    · refine ⟨?_, ?_, ?_⟩
      · simp [awaits]
      · intro id isRegistered
        rcases forgotten id c' isRegistered with ⟨old, other⟩
        rcases correlated.registered id c' old with ⟨_, m', awaits', same'⟩
        rw [awaits, CallerPc.awaiting.injEq] at awaits'
        rw [← awaits', same] at same'
        exact other same'.symm
      · intro m' awaits'
        simp only [setBox_callers, awaits, CallerPc.awaiting.injEq] at awaits'
        exact awaits' ▸ mono answer' m repliesTo
  · intro c' answer' m' answered
    exact mono answer' m' (correlated.answered c' answer' m' answered)

/-- The guard of a call that is pushed, read as a fact about the callers. -/
theorem Correlated.fresh (correlated : Correlated state) {body : Body} {reply : Option CallerId}
    (admitted : state.idsDistinct (.pushAgent body reply) = true) :
    ∀ c c' m, reply = some c → rpcID body ≠ "" → state.callers c' = .awaiting m →
      rpcID (state.bodies m) ≠ rpcID body := by
  rintro c c' m rfl hasId awaits
  rcases correlated.awaited awaits with ⟨below, awaited⟩
  simp only [idsDistinct, hasId, decide_false, Bool.false_or, List.all_eq_true,
    List.mem_range] at admitted
  simpa [awaited] using admitted m below

theorem waitReply_of_forgotten {box : AgentBox} {id id' : String} {c : CallerId}
    (registered : Function.update box.waitReply id none id' = some c) :
    box.waitReply id' = some c := by
  rcases eq_or_ne id' id with rfl | other
  · simp at registered
  · rwa [Function.update_of_ne other] at registered

theorem returned_of_waiting {t : TakeId} {pc : TakePc} (waits : state.takes t = .waiting) :
    ∀ t' n, state.takes t' = .returned (some n) false →
      Function.update state.takes t pc t' = .returned (some n) false := by
  intro t' n returned
  have other : t' ≠ t := by
    rintro rfl
    simp [waits] at returned
  rwa [Function.update_of_ne other]

/-- Every step keeps the correlation, as long as ids are distinct. -/
theorem Correlated.step {action : Action} (correlated : Correlated state)
    (conserved : Conserved state) (admitted : state.idsDistinct action = true)
    (fires : state.step action = some next) : Correlated next := by
  have facts := conserved.channels
  cases action with
  | pushAgent body reply =>
      simp only [Mailbox.step] at fires
      split at fires
      · rename_i idle
        have mid : Correlated ((state.allocate body reply).setBox
            (state.box.register (rpcID body) reply)) := by
          apply correlated.allocate conserved
          · rintro c rfl
            simpa using idle
          · exact correlated.fresh admitted
        rcases pushAgent_cases fires with ⟨_, rfl⟩ | ⟨_, t, _, _, rfl⟩ | ⟨_, _, rfl⟩
        · exact correlated
        · refine mid.frame rfl rfl rfl rfl ?_ ?_ ?_ ?_
          · exact fun _ _ => id
          · exact fun _ _ => id
          · exact fun _ _ => id
          · exact fun _ => Or.inl
        · refine mid.frame rfl rfl rfl rfl ?_ ?_ ?_ ?_
          · exact fun _ _ => id
          · exact fun _ _ => id
          · exact fun _ _ => AgentBox.enqueue_waitReply_of_eq_some
          · intro item queued
            rcases AgentBox.mem_enqueue_q queued with old | rfl
            · exact Or.inl old
            · refine Or.inr ⟨Nat.lt_succ_self _, ?_, ?_⟩
              · simp
              · rintro c rfl _
                simp
      · cases fires
  | takeAgent =>
      rw [Mailbox.step, Option.some.injEq] at fires
      subst fires
      have returned : ∀ pc t n, state.takes t = .returned (some n) false →
          Function.update state.takes state.taken pc t = .returned (some n) false := by
        intro pc t n returned
        have other : t ≠ state.taken := by
          rintro rfl
          simp [facts.fresh] at returned
        rwa [Function.update_of_ne other]
      rcases takeAgent_cases state with ⟨item, rest, q, taken⟩ | ⟨_, _, taken⟩ | ⟨_, _, taken⟩
      · rw [taken]
        refine correlated.frame rfl rfl rfl rfl (fun _ _ => id) (returned _) (fun _ _ => id) ?_
        intro next queued
        left
        rw [q]
        exact List.mem_cons_of_mem item queued
      · rw [taken]
        exact correlated.frame rfl rfl rfl rfl (fun _ _ => id) (returned _) (fun _ _ => id)
          fun _ => Or.inl
      · rw [taken]
        exact correlated.frame rfl rfl rfl rfl (fun _ _ => id) (returned _) (fun _ _ => id)
          fun _ => Or.inl
  | receive t =>
      rcases receive_cases fires with ⟨n, waits, _, rfl⟩
      exact correlated.frame rfl rfl rfl rfl (fun _ _ => id) (returned_of_waiting waits)
        (fun _ _ => id) fun _ => Or.inl
  | takeDone t =>
      rcases takeDone_cases fires with ⟨waits, ⟨late, holds, rfl⟩ | ⟨_, rfl⟩⟩
      · refine correlated.frame rfl rfl rfl rfl (fun _ _ => id) (returned_of_waiting waits)
          (fun _ _ => id) ?_
        intro item queued
        rcases List.mem_cons.mp queued with rfl | old
        · exact Or.inr ⟨conserved.of_held holds, rfl, by simp⟩
        · exact Or.inl old
      · exact correlated.frame rfl rfl rfl rfl (fun _ _ => id) (returned_of_waiting waits)
          (fun _ _ => id) fun _ => Or.inl
  | replyAgent answer =>
      rcases replyAgent_cases fires with ⟨honest, ⟨_, rfl⟩ | ⟨_, c, registered, rfl⟩ | ⟨_, _, rfl⟩⟩
      · exact correlated
      · exact correlated.reply facts admitted honest registered
      · exact correlated.frame rfl rfl rfl rfl (fun _ _ => id) (fun _ _ => id)
          (fun _ _ => waitReply_of_forgotten) fun _ => Or.inl
  | send k =>
      rcases send_cases fires with ⟨c, answer, listed, rfl⟩
      refine correlated.frame rfl rfl rfl rfl ?_ (fun _ _ => id) (fun _ _ => id) fun _ => Or.inl
      rintro c' answer' (inChannel | onItsWay)
      · simp only at inChannel
        split at inChannel
        · rcases eq_or_ne c' c with rfl | other
          · rw [Function.update_self, Option.some.injEq] at inChannel
            exact Or.inr (inChannel ▸ List.mem_of_getElem? listed)
          · exact Or.inl (by rwa [Function.update_of_ne other] at inChannel)
        · exact Or.inl inChannel
      · exact Or.inr (List.mem_of_mem_eraseIdx onItsWay)
  | hear c =>
      rcases hear_cases fires with ⟨m, answer, awaits, replied, rfl⟩
      exact correlated.hear conserved awaits replied
  | timeout c =>
      rcases timeout_cases fires with ⟨m, awaits, rfl⟩
      exact correlated.timeout awaits
  | cancelAgent id =>
      rw [Mailbox.step, Option.some.injEq] at fires
      subst fires
      rcases cancelAgent_cases state id with ⟨_, same⟩ | ⟨_, cancelled⟩
      · rw [same]
        exact correlated
      · rw [cancelled]
        exact correlated.frame rfl rfl rfl rfl (fun _ _ held => held) (fun _ _ held => held)
          (fun _ _ => waitReply_of_forgotten) fun _ queued => Or.inl (List.mem_of_mem_filter queued)

/-- A call that times out takes only its own waiter and its own entry out. -/
theorem Correlated.timeout_spares (correlated : Correlated state) {c : CallerId} {m : PushId}
    (awaits : state.callers c = .awaiting m) (fires : state.timeout c = some next) :
    state.SparesOthers next (· = m) := by
  rcases timeout_cases fires with ⟨m', awaits', rfl⟩
  rw [awaits, CallerPc.awaiting.injEq] at awaits'
  subst awaits'
  rcases cancelAgent_cases state (rpcID (state.bodies m)) with ⟨_, same⟩ | ⟨hasId, cancelled⟩
  · rw [same]
    exact ⟨fun _ _ _ registered _ _ => registered, fun _ queued _ => queued⟩
  · rw [cancelled]
    -- Another call with the same id would be another caller waiting with it.
    have alone : ∀ c' m', state.callers c' = .awaiting m' →
        rpcID (state.bodies m') = rpcID (state.bodies m) → m' = m := by
      intro c' m' awaits' same
      have sameCaller := correlated.distinct c c' m m' awaits awaits' same.symm hasId
      rw [← sameCaller, awaits, CallerPc.awaiting.injEq] at awaits'
      exact awaits'.symm
    constructor
    · intro id c' m' registered awaits' other
      have distinct : id ≠ rpcID (state.bodies m) := by
        rintro rfl
        rcases correlated.registered _ c' registered with ⟨_, m'', awaits'', same⟩
        rw [awaits', CallerPc.awaiting.injEq] at awaits''
        subst awaits''
        exact other (alone c' m' awaits' same)
      simpa [distinct] using registered
    · intro item queued other
      rcases correlated.entries item queued with ⟨_, id, waits⟩
      have kept : AgentBox.cancels (rpcID (state.bodies m)) item = false := by
        cases reply : item.reply with
        | none => simp [AgentBox.cancels, reply]
        | some c' =>
            by_contra cancels
            simp only [AgentBox.cancels, reply, Option.isSome_some, Bool.true_and,
              decide_eq_false_iff_not, not_not] at cancels
            have awaits' := waits c' reply (by rw [cancels]; exact hasId)
            exact other (alone c' item.body awaits' (id.symm.trans cancels))
      simp [queued, kept]

/-- A call that is pushed finds its own waiter registered afterwards, and of the others it takes at
most the waiter and the entry of the one that it drops. -/
theorem Correlated.push_spares (correlated : Correlated state) {body : Body}
    {reply : Option CallerId} (admitted : state.idsDistinct (.pushAgent body reply) = true)
    (pushes : state.pushAgent body reply = some next) :
    state.SparesOthers next (fun m => ∃ dropped, state.box.overflow = some dropped ∧
        dropped.body = m) ∧
      ∀ c, reply = some c → body.isEmpty = false → rpcID body ≠ "" →
        next.box.waitReply (rpcID body) = some c := by
  have fresh := correlated.fresh admitted
  -- Whoever is dropped with a waiter still waits for the call in the entry.
  have droppedWaits : ∀ dropped, state.box.overflow = some dropped → dropped.reply.isSome →
      dropped.id ≠ "" → ∃ c, state.callers c = .awaiting dropped.body ∧
        rpcID (state.bodies dropped.body) = dropped.id := by
    intro dropped overflow hasReply hasId
    rcases correlated.entries dropped (AgentBox.mem_of_overflow overflow) with ⟨_, id, waits⟩
    rcases Option.isSome_iff_exists.mp hasReply with ⟨c, reply⟩
    exact ⟨c, waits c reply hasId, id.symm⟩
  have notTaken : ∀ id c m, state.box.waitReply id = some c → state.callers c = .awaiting m →
      rpcID (state.bodies m) = id ∧ (reply = none ∨ id ≠ rpcID body) := by
    intro id c m registered awaits
    rcases correlated.registered id c registered with ⟨hasId, m', awaits', same⟩
    rw [awaits, CallerPc.awaiting.injEq] at awaits'
    subst awaits'
    refine ⟨same, ?_⟩
    cases isReply : reply with
    | none => exact Or.inl rfl
    | some newcomer =>
        right
        rintro rfl
        exact fresh newcomer c m isReply hasId awaits same
  rcases pushAgent_cases pushes with ⟨isEmpty, rfl⟩ | ⟨_, t, _, _, rfl⟩ | ⟨_, _, rfl⟩
  · refine ⟨⟨fun _ _ _ registered _ _ => registered, fun _ queued _ => queued⟩, ?_⟩
    intro c _ notEmpty
    rw [isEmpty] at notEmpty
    cases notEmpty
  · refine ⟨⟨?_, ?_⟩, ?_⟩
    · intro id c m registered awaits _
      simp only [hand_box_waitReply, setBox_box]
      rw [AgentBox.register_waitReply_of_ne (notTaken id c m registered awaits).2]
      exact registered
    · intro item queued _
      simpa using queued
    · rintro c rfl _ hasId
      exact AgentBox.register_waitReply_self state.box hasId c
  · refine ⟨⟨?_, ?_⟩, ?_⟩
    · intro id c m registered awaits other
      rcases notTaken id c m registered awaits with ⟨same, notNew⟩
      rw [enqueue_box, setBox_box, AgentBox.enqueue_waitReply_of_ne,
        AgentBox.register_waitReply_of_ne notNew]
      · exact registered
      · intro dropped overflow hasReply hasId sameId
        rw [AgentBox.register_overflow] at overflow
        rcases droppedWaits dropped overflow hasReply hasId with ⟨c', awaits', id'⟩
        have sameCaller := correlated.distinct c c' m dropped.body awaits awaits'
          (by rw [same, id', sameId]) (by rw [same, ← sameId]; exact hasId)
        rw [← sameCaller, awaits, CallerPc.awaiting.injEq] at awaits'
        exact other ⟨dropped, overflow, awaits'.symm⟩
    · intro item queued other
      apply AgentBox.enqueue_mem
      · simpa using queued
      · intro overflow
        rw [setBox_box, AgentBox.register_overflow] at overflow
        exact other ⟨item, overflow, rfl⟩
    · rintro c rfl _ hasId
      rw [enqueue_box, setBox_box, AgentBox.enqueue_waitReply_of_ne,
        AgentBox.register_waitReply_self _ hasId]
      intro dropped overflow hasReply hasId' sameId
      rw [AgentBox.register_overflow] at overflow
      rcases droppedWaits dropped overflow hasReply hasId' with ⟨c', awaits', id'⟩
      exact fresh c c' dropped.body rfl hasId awaits' (id'.trans sameId)

end Steps

section Runs

/-- In a run whose waiting calls have distinct ids, a caller hears the reply to its own delivered
call or gives up by itself; and a call that times out, or is dropped by an overflow, takes no
reply waiter and no queued body but its own. -/
theorem replies_correlated {actions : List Action} {state : Mailbox}
    (run : Run Mailbox.step (fun state action => state.idsDistinct action = true) Mailbox.empty
      actions state) :
    (∀ c m answer, state.callers c = .answered m answer → state.RepliesTo answer m) ∧
      (∀ c m, state.callers c = .awaiting m → ∃ next, state.timeout c = some next ∧
        next.callers c = .timedOut m ∧ state.SparesOthers next (· = m)) ∧
      ∀ body reply next, state.idsDistinct (.pushAgent body reply) = true →
        state.step (.pushAgent body reply) = some next →
          state.SparesOthers next (fun m => ∃ dropped, state.box.overflow = some dropped ∧
              dropped.body = m) ∧
            ∀ c, reply = some c → body.isEmpty = false → rpcID body ≠ "" →
              next.box.waitReply (rpcID body) = some c := by
  have correlated : Correlated state := by
    apply run.invariant_under Conserved.empty
    · intro before after action conserved fires
      exact conserved.step fires
    · exact Correlated.empty
    · intro before after action conserved correlated admitted fires
      exact correlated.step conserved admitted fires
  refine ⟨?_, ?_, ?_⟩
  · intro c m answer answered
    exact correlated.answered c answer m answered
  · intro c m awaits
    have fires : state.timeout c = some { state.cancelAgent (rpcID (state.bodies m)) with
        callers := Function.update state.callers c (.timedOut m) } := by
      simp [timeout, awaits]
    refine ⟨_, fires, ?_, correlated.timeout_spares awaits fires⟩
    simp
  · intro body reply next admitted fires
    simp only [Mailbox.step] at fires
    split at fires
    · exact correlated.push_spares admitted fires
    · cases fires

/-- Two callers with different ids; the agent answers the first one. -/
def firstAnswered : List Action :=
  [.takeAgent, .pushAgent (request "1") (some 0), .receive 0, .pushAgent (request "2") (some 1),
    .replyAgent ⟨request "1", some 0⟩, .send 0, .hear 0]

theorem replies_correlated_firstAnswered :
    ∃ state, Run Mailbox.step (fun state action => state.idsDistinct action = true) Mailbox.empty
        firstAnswered state ∧ state.callers 0 = .answered 0 ⟨request "1", some 0⟩ ∧
      state.RepliesTo ⟨request "1", some 0⟩ 0 := by
  have ran : ((execWhen Mailbox.step idsDistinct Mailbox.empty firstAnswered).map fun state =>
      state.callers 0) = some (.answered 0 ⟨request "1", some 0⟩) := by
    decide
  rcases Option.map_eq_some_iff.mp ran with ⟨state, executed, answered⟩
  have run := run_of_execWhen executed
  exact ⟨state, run, answered, (replies_correlated run).1 0 0 _ answered⟩

/-- Two callers with one id; the agent answers the first one. -/
def sameId : List Action :=
  [.takeAgent, .pushAgent (request "1") (some 0), .receive 0, .pushAgent (request "1") (some 1),
    .replyAgent ⟨request "1", some 0⟩, .send 0, .hear 1]

/-- A caller with the id of a transcript line; the agent answers the line. -/
def transcriptId : List Action :=
  [.takeAgent, .pushAgent (request "\"7\"") none, .receive 0,
    .pushAgent (request "\"7\"") (some 0), .replyAgent ⟨request "\"7\"", some 0⟩, .send 0, .hear 0]

/-- Two callers with one id are queued; the first one gives up. -/
def firstGivesUp : List Action :=
  [.pushAgent (request "1") (some 0), .pushAgent (request "1") (some 1), .timeout 0]

/-- Calls with equal ids: the second caller hears the reply to the first call, a caller hears the
reply to a transcript line, and the first caller takes the waiter and the queued body of the
second one with it. -/
theorem not_replies_correlated :
    (∃ state, Run Mailbox.step (fun _ _ => True) Mailbox.empty sameId state ∧
        state.callers 1 = .answered 1 ⟨request "1", some 0⟩) ∧
      (∃ state, Run Mailbox.step (fun _ _ => True) Mailbox.empty transcriptId state ∧
        state.callers 0 = .answered 1 ⟨request "\"7\"", some 0⟩) ∧
      ∃ state, Run Mailbox.step (fun _ _ => True) Mailbox.empty firstGivesUp state ∧
        state.callers 1 = .awaiting 1 ∧ state.box.q = [] ∧ state.box.waitReply "1" = none ∧
          state.discarded = [0, 1] := by
  refine ⟨?_, ?_, ?_⟩
  · have ran : ((exec Mailbox.step Mailbox.empty sameId).map fun state => state.callers 1) =
        some (.answered 1 ⟨request "1", some 0⟩) := by
      decide
    rcases Option.map_eq_some_iff.mp ran with ⟨state, executed, answered⟩
    exact ⟨state, run_of_exec executed, answered⟩
  · have ran : ((exec Mailbox.step Mailbox.empty transcriptId).map fun state => state.callers 0) =
        some (.answered 1 ⟨request "\"7\"", some 0⟩) := by
      decide
    rcases Option.map_eq_some_iff.mp ran with ⟨state, executed, answered⟩
    exact ⟨state, run_of_exec executed, answered⟩
  · have ran : ((exec Mailbox.step Mailbox.empty firstGivesUp).map fun state =>
        (state.callers 1, state.box.q, state.box.waitReply "1", state.discarded)) =
          some (.awaiting 1, [], none, [0, 1]) := by
      decide
    rcases Option.map_eq_some_iff.mp ran with ⟨state, executed, facts⟩
    simp only [Prod.mk.injEq] at facts
    exact ⟨state, run_of_exec executed, facts⟩

end Runs

end Mailbox

end MikroLLM.A2A
