import MikroLLM.A2A.Conservation
import MikroLLM.A2A.Reading

/-!
# Who receives a message

A posted message is pushed to the mailbox of a name. The mailboxes live in the
process and outlive the rows of the directory, so what keeps a message within
its group is who holds the name: while a mailbox belongs to one row, its pushes
are handed to that row only.
-/

namespace MikroLLM.A2A

open Domain Go Library Store

/-- A message as it is pushed to a row, with the memberships of that moment and the row that the
message was addressed to when it was posted. -/
structure Delivery where
  message : A2AMessage
  members : List (GroupId × AgentId)
  addressee : Option AgentId
  row : AgentId

/-- The row was in the group of the posted message when it was pushed, and is its addressee where
it has one. -/
structure Delivery.Entitles (delivery : Delivery) (row : AgentId) : Prop where
  posted : delivery.message.status = .posted
  member : (delivery.message.groupId, row) ∈ delivery.members
  addressed : delivery.message.toAgent ≠ "" → delivery.addressee = some row

/-- The directory and the mailboxes of the process. `holders` are the rows whose keys opened the
connections; `transcripts`, the deliveries in the mailboxes, `addressees` and `calls`, the pushes
to the URLs of agents, are histories. -/
structure Gateway where
  tables : A2ATables
  boxes : String → Mailbox
  holders : String → TakeId → Option AgentId
  transcripts : String → PushId → Option Delivery
  addressees : MessageId → Option AgentId
  calls : List (Delivery × String)

namespace Gateway

/-- A process that starts on a store. -/
def start (tables : A2ATables) (addressees : MessageId → Option AgentId) : Gateway where
  tables := tables
  boxes := fun _ => .empty
  holders := fun _ _ => none
  transcripts := fun _ _ => none
  addressees := addressees
  calls := []

/-- One agent in the loop of `ForwardPosted`. -/
def forwardTo (env : Env) (group : String) (message : A2AMessage) (state : Gateway)
    (agent : A2AUpstream) : Option Gateway :=
  if agent.enabled = false then some state
  else
    let delivery : Delivery :=
      ⟨message, state.tables.members, state.addressees message.id, agent.id⟩
    let box := state.boxes agent.name
    (box.pushAgent (messageSendBody env group message) none).map fun next =>
      { state with
        boxes := Function.update state.boxes agent.name next
        transcripts := Function.update state.transcripts agent.name
          (Function.update (state.transcripts agent.name) box.pushed (some delivery))
        calls := state.calls ++ ((joinURL agent.url).map fun url => (delivery, url)).toList }

/-- `ForwardPosted`. -/
def forwardPosted (env : Env) (state : Gateway) (posting : Posting) : Option Gateway :=
  posting.targets.foldlM (forwardTo env posting.group posting.message) state

/-- A handler, a statement of the store, or a step of a mailbox. -/
inductive Action
  | register (req : RegReq) (token : String)
  | saveA2A (agent : A2AUpstream)
  | deleteA2A (id : AgentId)
  | setAgentGroups (id : AgentId) (groups : List GroupId)
  | post (bearer : String) (req : MsgReq) (now : String)
  | confirm (id : MessageId)
  | reject (id : MessageId)
  | connect (bearer : String)
  | mailbox (name : String) (action : Mailbox.Action)

/-- One step. -/
def step (env : Env) (state : Gateway) : Action → Option Gateway
  | .register req token => some { state with tables := (register env state.tables req token).1 }
  | .saveA2A agent =>
      match state.tables.saveA2A env.text env.parseURL agent with
      | .ok (saved, _) => some { state with tables := saved }
      | .error _ => some state
  | .deleteA2A id => some { state with tables := state.tables.deleteA2A id }
  | .setAgentGroups id groups =>
      match state.tables.setAgentGroups id groups with
      | .ok saved => some { state with tables := saved }
      | .error _ => some state
  | .post bearer req now =>
      match postMessage env state.tables bearer req now with
      | .ok posting =>
          forwardPosted env
            { state with
              tables := posting.tables
              addressees := Function.update state.addressees posting.message.id
                (posting.target.map (·.id)) }
            posting
      | .error _ => some state
  | .confirm id =>
      match decideA2AMessage env state.tables id .posted with
      | some posting => forwardPosted env { state with tables := posting.tables } posting
      | none => some state
  | .reject id =>
      match decideA2AMessage env state.tables id .rejected with
      | some posting => some { state with tables := posting.tables }
      | none => some state
  | .connect bearer =>
      match caller env state.tables bearer with
      | .ok self =>
          let box := state.boxes self.name
          some { state with
            boxes := Function.update state.boxes self.name box.takeAgent
            holders := Function.update state.holders self.name
              (Function.update (state.holders self.name) box.taken (some self.id)) }
      | .error _ => some state
  | .mailbox _ .takeAgent => none
  | .mailbox name action =>
      ((state.boxes name).step action).map fun next =>
        { state with boxes := Function.update state.boxes name next }

theorem step_mailbox {env : Env} {state : Gateway} {name : String} {action : Mailbox.Action}
    (notTake : action ≠ .takeAgent) :
    state.step env (.mailbox name action) = ((state.boxes name).step action).map fun next =>
      { state with boxes := Function.update state.boxes name next } := by
  cases action with
  | takeAgent => exact absurd rfl notTake
  | _ => rfl

/-- A mailbox holds transcript pushes of one row only, and only its connections are open. -/
def ownedBy (state : Gateway) (name : String) (row : AgentId) : Bool :=
  (state.boxes name).box.q.all (fun item =>
      (state.transcripts name item.body).all fun delivery => delivery.row = row) &&
    (List.range (state.boxes name).taken).all fun t =>
      (state.boxes name).takes t ≠ .waiting || state.holders name t = some row

/-- The mailbox of the name that `SaveA2A` gives to a row is that row's, unless the save fails. -/
def savesOwned (env : Env) (state : Gateway) (agent : A2AUpstream) : Bool :=
  match state.tables.saveA2A env.text env.parseURL agent with
  | .ok _ =>
      (normalizeMCPName env.text agent.name).all fun name =>
        state.ownedBy name (if agent.id = 0 then state.tables.nextAgent else agent.id)
  | .error _ => true

/-- A row only ever gets a name whose mailbox is its own; and when a message with an addressee is
confirmed, the row with that name is the one it was posted to, and still in the group. -/
def isolates (env : Env) (state : Gateway) : Action → Bool
  | .register req token =>
      (state.tables.getA2AGroupByInvite (env.hashKey (trimSpace req.invite))).all fun _ =>
        (normalizeMCPName env.text req.name).all fun name =>
          match state.tables.getA2AByName env.text name with
          | some row => state.savesOwned env (req.apply env row)
          | none => state.savesOwned env (req.apply env (newAgent name (env.hashKey token)))
  | .saveA2A agent => state.savesOwned env agent
  | .confirm id =>
      (state.tables.getA2AMessage id).all fun message =>
        message.toAgent = "" ||
          (state.tables.getA2AByName env.text message.toAgent).all fun agent =>
            !agent.enabled || (state.tables.agentInGroup message.groupId agent.id &&
              state.addressees message.id = some agent.id)
  | _ => true

end Gateway

section Moves

/-- What one step of a mailbox can do to the places of its bodies: `new` bodies are put into the
queue or handed to a waiting connection, `begun` connections take from the queue or wait. -/
structure Moves (state next : Mailbox) (new : PushId → Prop) (begun : TakeId → Prop) : Prop where
  queue : ∀ item ∈ next.box.q, (∃ old ∈ state.box.q, old.body = item.body) ∨ new item.body ∨
    ∃ t, state.takes t = .waiting ∧ state.channels t = some item.body
  channels : ∀ t n, next.channels t = some n →
    state.channels t = some n ∨ (new n ∧ state.takes t = .waiting)
  waiting : ∀ t, next.takes t = .waiting → state.takes t = .waiting ∨ begun t
  returned : ∀ t n busy, next.takes t = .returned (some n) busy →
    state.takes t = .returned (some n) busy ∨
      (state.takes t = .waiting ∧ state.channels t = some n) ∨
        (begun t ∧ ∃ item ∈ state.box.q, item.body = n)

variable {state next : Mailbox}

/-- A step that only takes entries out of the queue. -/
theorem Moves.of_sublist {new : PushId → Prop} {begun : TakeId → Prop}
    (q : ∀ item ∈ next.box.q, item ∈ state.box.q) (channels : next.channels = state.channels)
    (takes : next.takes = state.takes) : Moves state next new begun := by
  constructor
  · intro item queued
    exact Or.inl ⟨item, q item queued, rfl⟩
  · rw [channels]
    exact fun _ _ => Or.inl
  · rw [takes]
    exact fun _ => Or.inl
  · rw [takes]
    exact fun _ _ _ => Or.inl

theorem Moves.of_finishTake {new : PushId → Prop} {begun : TakeId → Prop} (box : AgentBox)
    {t : TakeId} {body : Option PushId} (waits : state.takes t = .waiting) (returned : ∀ n, body = some n → state.channels t = some n)
    (q : ∀ item ∈ box.q, item ∈ state.box.q ∨ state.channels t = some item.body) :
    Moves state ((state.setBox box).finishTake t body) new begun := by
  constructor
  · intro item queued
    rcases q item queued with old | late
    · exact Or.inl ⟨item, old, rfl⟩
    · exact Or.inr (Or.inr ⟨t, waits, late⟩)
  · intro t' n holds
    rcases eq_or_ne t' t with rfl | other
    · simp at holds
    · exact Or.inl (by simpa [other] using holds)
  · intro t' waits'
    rcases eq_or_ne t' t with rfl | other
    · exact Or.inl waits
    · exact Or.inl (by simpa [other] using waits')
  · intro t' n busy returned'
    rcases eq_or_ne t' t with rfl | other
    · simp only [Mailbox.finishTake_takes, Function.update_self, TakePc.returned.injEq] at returned'
      exact Or.inr (Or.inl ⟨waits, returned n returned'.1⟩)
    · exact Or.inl (by simpa [other] using returned')

theorem moves_of_push {body : Body} {reply : Option CallerId} (facts : state.ChannelFacts)
    (pushes : state.pushAgent body reply = some next) :
    Moves state next (· = state.pushed) (fun _ => False) := by
  rcases Mailbox.pushAgent_cases pushes with ⟨_, rfl⟩ | ⟨_, t, waiter, _, rfl⟩ | ⟨_, _, rfl⟩
  · exact Moves.of_sublist (fun _ => id) rfl rfl
  · constructor
    · intro item queued
      exact Or.inl ⟨item, by simpa using queued, rfl⟩
    · intro t' n holds
      rcases eq_or_ne t' t with rfl | other
      · simp only [Mailbox.hand_channels, Function.update_self, Option.some.injEq] at holds
        exact Or.inr ⟨holds.symm, (facts.waiter t' waiter).1⟩
      · exact Or.inl (by simpa [other] using holds)
    · exact fun _ => Or.inl
    · exact fun _ _ _ => Or.inl
  · constructor
    · intro item queued
      rcases AgentBox.mem_enqueue_q queued with old | rfl
      · exact Or.inl ⟨item, by simpa using old, rfl⟩
      · exact Or.inr (Or.inl rfl)
    · exact fun _ _ => Or.inl
    · exact fun _ => Or.inl
    · exact fun _ _ _ => Or.inl

theorem moves_of_take (facts : state.ChannelFacts) :
    Moves state state.takeAgent (fun _ => False) (· = state.taken) := by
  have fresh := facts.fresh
  rcases state.takeAgent_cases with ⟨item, rest, q, taken⟩ | ⟨_, _, taken⟩ | ⟨_, _, taken⟩
  · rw [taken]
    constructor
    · intro next queued
      exact Or.inl ⟨next, by rw [q]; exact List.mem_cons_of_mem item queued, rfl⟩
    · exact fun _ _ => Or.inl
    · intro t waits
      rcases eq_or_ne t state.taken with rfl | other
      · exact Or.inr rfl
      · exact Or.inl (by simpa [other] using waits)
    · intro t n busy returned
      rcases eq_or_ne t state.taken with rfl | other
      · simp only [Mailbox.beginTake_takes, Function.update_self, TakePc.returned.injEq,
          Option.some.injEq] at returned
        exact Or.inr (Or.inr ⟨rfl, item, by simp [q], returned.1⟩)
      · exact Or.inl (by simpa [other] using returned)
  all_goals
    rw [taken]
    constructor
    · intro next queued
      exact Or.inl ⟨next, queued, rfl⟩
    · exact fun _ _ => Or.inl
    · intro t waits
      rcases eq_or_ne t state.taken with rfl | other
      · exact Or.inr rfl
      · exact Or.inl (by simpa [other] using waits)
    · intro t n busy returned
      rcases eq_or_ne t state.taken with rfl | other
      · simp at returned
      · exact Or.inl (by simpa [other] using returned)

/-- Every step but the begin of a connection. -/
theorem moves_of_step {action : Mailbox.Action} (facts : state.ChannelFacts)
    (fires : state.step action = some next) (notTake : action ≠ .takeAgent) :
    Moves state next (· = state.pushed) (fun _ => False) := by
  cases action with
  | pushAgent body reply =>
      simp only [Mailbox.step] at fires
      split at fires
      · exact moves_of_push facts fires
      · cases fires
  | takeAgent => exact absurd rfl notTake
  | receive t =>
      rcases Mailbox.receive_cases fires with ⟨n, waits, holds, rfl⟩
      apply Moves.of_finishTake state.box waits
      · rintro m same
        rw [holds, same]
      · exact fun _ => Or.inl
  | takeDone t =>
      rcases Mailbox.takeDone_cases fires with ⟨waits, ⟨late, holds, rfl⟩ | ⟨_, rfl⟩⟩
      · apply Moves.of_finishTake _ waits
        · simp
        · intro item queued
          rcases List.mem_cons.mp queued with rfl | old
          · exact Or.inr holds
          · exact Or.inl old
      · apply Moves.of_finishTake _ waits
        · simp
        · exact fun _ => Or.inl
  | replyAgent answer =>
      rcases (Mailbox.replyAgent_cases fires).2 with ⟨_, rfl⟩ | ⟨_, _, _, rfl⟩ | ⟨_, _, rfl⟩
      all_goals exact Moves.of_sublist (fun _ => id) rfl rfl
  | send k =>
      rcases Mailbox.send_cases fires with ⟨_, _, _, rfl⟩
      exact Moves.of_sublist (fun _ => id) rfl rfl
  | hear c =>
      rcases Mailbox.hear_cases fires with ⟨_, _, _, _, rfl⟩
      exact Moves.of_sublist (fun _ => id) rfl rfl
  | timeout c =>
      rcases Mailbox.timeout_cases fires with ⟨m, _, rfl⟩
      rcases Mailbox.cancelAgent_cases state (rpcID (state.bodies m)) with ⟨_, same⟩ | ⟨_, cancelled⟩
      · rw [same]
        exact Moves.of_sublist (fun _ => id) rfl rfl
      · rw [cancelled]
        exact Moves.of_sublist (fun _ => List.mem_of_mem_filter) rfl rfl
  | cancelAgent id =>
      rw [Mailbox.step, Option.some.injEq] at fires
      subst fires
      rcases Mailbox.cancelAgent_cases state id with ⟨_, same⟩ | ⟨_, cancelled⟩
      · rw [same]
        exact Moves.of_sublist (fun _ queued => queued) rfl rfl
      · rw [cancelled]
        exact Moves.of_sublist (fun _ => List.mem_of_mem_filter) rfl rfl

end Moves

namespace Gateway

/-- Transcript pushes in a mailbox are for one row, and so are the connections open on it. -/
structure Owned (state : Gateway) (name : String) (row : AgentId) : Prop where
  queue : ∀ item ∈ (state.boxes name).box.q, ∀ delivery,
    state.transcripts name item.body = some delivery → delivery.row = row
  connections : ∀ t, (state.boxes name).takes t = .waiting → state.holders name t = some row

/-- The mailbox of a name that a row has is that row's; what a connection holds or returned was
pushed for the row that opened it. -/
structure Isolated (state : Gateway) : Prop where
  conserved : ∀ name, (state.boxes name).Conserved
  named : ∀ agent ∈ state.tables.agents, state.Owned agent.name agent.id
  channels : ∀ name t n delivery, (state.boxes name).channels t = some n →
    state.transcripts name n = some delivery → state.holders name t = some delivery.row
  returned : ∀ name t n busy delivery, (state.boxes name).takes t = .returned (some n) busy →
    state.transcripts name n = some delivery → state.holders name t = some delivery.row
  deliveries : ∀ name n delivery, state.transcripts name n = some delivery →
    n < (state.boxes name).pushed ∧ delivery.Entitles delivery.row
  calls : ∀ call ∈ state.calls, call.1.Entitles call.1.row

section Invariant

variable {state : Gateway}

theorem Isolated.start (tables : A2ATables) (addressees : MessageId → Option AgentId) :
    Isolated (start tables addressees) := by
  constructor
  · exact fun _ => Mailbox.Conserved.empty
  · intro agent _
    constructor <;> simp [Gateway.start, Mailbox.empty]
  all_goals simp [Gateway.start, Mailbox.empty]

theorem owned_of_ownedBy {name : String} {row : AgentId} (isolated : Isolated state)
    (owned : state.ownedBy name row = true) : state.Owned name row := by
  simp only [ownedBy, Bool.and_eq_true, List.all_eq_true, Option.all_eq_true, decide_eq_true_eq,
    List.mem_range, Bool.or_eq_true, ne_eq] at owned
  constructor
  · exact owned.1
  · intro t waits
    have begun := (isolated.conserved name).channels.begun t (by simp [waits])
    exact (owned.2 t begun).resolve_left (by simp [waits])

/-- The rows change; a row that has a new name has its mailbox. -/
theorem Isolated.setTables (isolated : Isolated state) (tables : A2ATables)
    (named : ∀ agent ∈ tables.agents, agent ∈ state.tables.agents ∨
      state.Owned agent.name agent.id) :
    Isolated { state with tables := tables } := by
  constructor
  · exact isolated.conserved
  · intro agent listed
    rcases named agent listed with old | owned
    · exact ⟨(isolated.named agent old).queue, (isolated.named agent old).connections⟩
    · exact ⟨owned.queue, owned.connections⟩
  · exact isolated.channels
  · exact isolated.returned
  · exact isolated.deliveries
  · exact isolated.calls

/-- A mailbox takes a step: new bodies are pushed for the row that has the name, and a new
connection is opened by it. -/
theorem Isolated.move (isolated : Isolated state) {name : String} {next : Mailbox}
    {new : PushId → Prop} {begun : TakeId → Prop} (holders : TakeId → Option AgentId)
    (transcripts : PushId → Option Delivery) (calls : List (Delivery × String))
    (conserved : next.Conserved) (moves : Moves (state.boxes name) next new begun)
    (fresh : ∀ n, new n → n = (state.boxes name).pushed)
    (below : ∀ n delivery, transcripts n = some delivery → n < next.pushed)
    (pushes : ∀ n delivery, transcripts n = some delivery →
      state.transcripts name n = some delivery ∨
        (n = (state.boxes name).pushed ∧ delivery.Entitles delivery.row ∧
          ∃ agent ∈ state.tables.agents, agent.name = name ∧ agent.id = delivery.row))
    (opened : ∀ t, begun t → t = (state.boxes name).taken ∧
      ∃ agent ∈ state.tables.agents, agent.name = name ∧ holders t = some agent.id)
    (kept : ∀ t, t ≠ (state.boxes name).taken → holders t = state.holders name t)
    (called : ∀ call ∈ calls, call ∈ state.calls ∨ call.1.Entitles call.1.row) :
    Isolated { state with
      boxes := Function.update state.boxes name next
      holders := Function.update state.holders name holders
      transcripts := Function.update state.transcripts name transcripts
      calls := calls } := by
  have here := isolated.conserved name
  have old : ∀ n delivery, n < (state.boxes name).pushed → transcripts n = some delivery →
      state.transcripts name n = some delivery := by
    intro n delivery small isPush
    rcases pushes n delivery isPush with was | ⟨isNew, _⟩
    · exact was
    · exact absurd small (by simp [isNew])
  have isRow : ∀ n delivery, new n → transcripts n = some delivery →
      ∃ agent ∈ state.tables.agents, agent.name = name ∧ agent.id = delivery.row := by
    intro n delivery isNew isPush
    rcases pushes n delivery isPush with was | ⟨_, _, row⟩
    · have small := (isolated.deliveries name n delivery was).1
      exact absurd small (by simp [fresh n isNew])
    · exact row
  have keeps : ∀ t, (state.boxes name).takes t ≠ .absent → holders t = state.holders name t := by
    intro t present
    apply kept
    exact Nat.ne_of_lt (here.channels.begun t present)
  constructor
  · intro name'
    rcases eq_or_ne name' name with rfl | other
    · simpa using conserved
    · simpa [other] using isolated.conserved name'
  · intro agent listed
    rcases eq_or_ne agent.name name with rfl | other
    · have owned := isolated.named agent listed
      have only : ∀ agent' ∈ state.tables.agents, agent'.name = agent.name →
          agent'.id = agent.id := by
        intro agent' listed' sameName
        rw [A2ATables.agent_ext_name listed' listed sameName]
      constructor
      · intro item queued delivery isPush
        simp only [Function.update_self] at queued isPush
        rcases moves.queue item queued with ⟨before, wasQueued, sameBody⟩ | isNew | ⟨t, waits, held⟩
        · rw [← sameBody] at isPush
          apply owned.queue before wasQueued
          exact old before.body delivery (here.of_queued wasQueued) isPush
        · rcases isRow item.body delivery isNew isPush with ⟨agent', listed', sameName, sameId⟩
          rw [← sameId]
          exact only agent' listed' sameName
        · have wasPush := old item.body delivery (here.of_held held) isPush
          have holder := isolated.channels agent.name t item.body delivery held wasPush
          rw [owned.connections t waits, Option.some.injEq] at holder
          exact holder.symm
      · intro t waits
        simp only [Function.update_self] at waits ⊢
        rcases moves.waiting t waits with waited | begins
        · rw [keeps t (by simp [waited])]
          exact owned.connections t waited
        · rcases opened t begins with ⟨_, agent', listed', sameName, holder⟩
          rw [holder, only agent' listed' sameName]
    · have owned := isolated.named agent listed
      constructor
      · simpa [other] using owned.queue
      · simpa [other] using owned.connections
  · intro name' t n delivery holds isPush
    rcases eq_or_ne name' name with rfl | other
    · simp only [Function.update_self] at holds isPush ⊢
      rcases moves.channels t n holds with held | ⟨isNew, waits⟩
      · rw [keeps t (by simp [here.channels.running t n held])]
        exact isolated.channels name' t n delivery held (old n delivery (here.of_held held) isPush)
      · rcases isRow n delivery isNew isPush with ⟨agent, listed, rfl, sameId⟩
        rw [keeps t (by simp [waits]), (isolated.named agent listed).connections t waits, sameId]
    · simp only [Function.update_of_ne other] at holds isPush ⊢
      exact isolated.channels name' t n delivery holds isPush
  · intro name' t n busy delivery isReturned isPush
    rcases eq_or_ne name' name with rfl | other
    · simp only [Function.update_self] at isReturned isPush ⊢
      rcases moves.returned t n busy isReturned with was | ⟨waits, held⟩ | ⟨begins, item, queued, rfl⟩
      · rw [keeps t (by simp [was])]
        exact isolated.returned name' t n busy delivery was
          (old n delivery (here.of_returned was).1 isPush)
      · rw [keeps t (by simp [waits])]
        exact isolated.channels name' t n delivery held (old n delivery (here.of_held held) isPush)
      · rcases opened t begins with ⟨_, agent, listed, rfl, holder⟩
        rw [holder]
        have wasPush := old item.body delivery (here.of_queued queued) isPush
        rw [(isolated.named agent listed).queue item queued delivery wasPush]
    · simp only [Function.update_of_ne other] at isReturned isPush ⊢
      exact isolated.returned name' t n busy delivery isReturned isPush
  · intro name' n delivery isPush
    rcases eq_or_ne name' name with rfl | other
    · simp only [Function.update_self] at isPush ⊢
      refine ⟨below n delivery isPush, ?_⟩
      rcases pushes n delivery isPush with was | ⟨_, entitles, _⟩
      · exact (isolated.deliveries name' n delivery was).2
      · exact entitles
    · simp only [Function.update_of_ne other] at isPush ⊢
      exact isolated.deliveries name' n delivery isPush
  · intro call listed
    rcases called call listed with was | entitles
    · exact isolated.calls call was
    · exact entitles

/-- A posted message is pushed to a row of the directory that it entitles. -/
theorem Isolated.forwardTo (isolated : Isolated state) {env : Env} {group : String}
    {message : A2AMessage} {agent : A2AUpstream} {next : Gateway}
    (listed : agent ∈ state.tables.agents)
    (entitled : agent.enabled = true → Delivery.Entitles
      ⟨message, state.tables.members, state.addressees message.id, agent.id⟩ agent.id)
    (pushes : state.forwardTo env group message agent = some next) :
    Isolated next ∧ next.tables = state.tables ∧ next.addressees = state.addressees := by
  unfold Gateway.forwardTo at pushes
  split at pushes
  · cases pushes
    exact ⟨isolated, rfl, rfl⟩
  · rename_i notDisabled
    have entitles := entitled (by simpa using notDisabled)
    rcases Option.map_eq_some_iff.mp pushes with ⟨box, pushed, rfl⟩
    have here := isolated.conserved agent.name
    have count := Mailbox.pushAgent_pushed rfl pushed
    refine ⟨?_, rfl, rfl⟩
    have fires : (state.boxes agent.name).step
        (.pushAgent (messageSendBody env group message) none) = some box := pushed
    have moved := isolated.move (state.holders agent.name)
      (Function.update (state.transcripts agent.name) (state.boxes agent.name).pushed
        (some ⟨message, state.tables.members, state.addressees message.id, agent.id⟩))
      (state.calls ++ ((joinURL agent.url).map fun url =>
        ((⟨message, state.tables.members, state.addressees message.id, agent.id⟩ : Delivery),
          url)).toList)
      (here.step fires) (moves_of_push here.channels pushed) (fun _ same => same) ?_ ?_
      (fun _ never => never.elim) (fun _ _ => rfl) ?_
    · simpa only [Function.update_eq_self] using moved
    · intro n delivery isPush
      rw [count]
      rcases eq_or_ne n (state.boxes agent.name).pushed with rfl | other
      · exact Nat.lt_succ_self _
      · rw [Function.update_of_ne other] at isPush
        exact (isolated.deliveries _ _ _ isPush).1.trans (Nat.lt_succ_self _)
    · intro n delivery isPush
      rcases eq_or_ne n (state.boxes agent.name).pushed with rfl | other
      · rw [Function.update_self, Option.some.injEq] at isPush
        subst isPush
        exact Or.inr ⟨rfl, entitles, agent, listed, rfl, rfl⟩
      · rw [Function.update_of_ne other] at isPush
        exact Or.inl isPush
    · intro call isCall
      rcases List.mem_append.mp isCall with old | new
      · exact Or.inl old
      · rcases Option.map_eq_some_iff.mp (Option.mem_toList.mp new) with ⟨url, _, rfl⟩
        exact Or.inr entitles

/-- A posted message is pushed to every target. -/
theorem Isolated.forwardPosted (isolated : Isolated state) {env : Env} {posting : Posting}
    {next : Gateway} (listed : ∀ agent ∈ posting.targets, agent ∈ state.tables.agents)
    (entitled : ∀ agent ∈ posting.targets, agent.enabled = true → Delivery.Entitles
      ⟨posting.message, state.tables.members, state.addressees posting.message.id, agent.id⟩
        agent.id)
    (pushes : Gateway.forwardPosted env state posting = some next) : Isolated next := by
  unfold Gateway.forwardPosted at pushes
  generalize posting.targets = targets at listed entitled pushes
  induction targets generalizing state with
  | nil =>
      cases pushes
      exact isolated
  | cons agent rest ih =>
      rw [List.foldlM_cons, Option.bind_eq_bind, Option.bind_eq_some_iff] at pushes
      rcases pushes with ⟨middle, first, others⟩
      rcases isolated.forwardTo (listed agent List.mem_cons_self)
        (entitled agent List.mem_cons_self) first with ⟨isolated', tables, addressees⟩
      apply ih isolated' _ _ others
      · intro agent' listed'
        rw [tables]
        exact listed agent' (List.mem_cons_of_mem _ listed')
      · intro agent' listed'
        rw [tables, addressees]
        exact entitled agent' (List.mem_cons_of_mem _ listed')

theorem saves_owned (isolated : Isolated state) {env : Env} {agent : A2AUpstream}
    {saved : A2ATables} {id : AgentId} (owned : state.savesOwned env agent = true)
    (saves : state.tables.saveA2A env.text env.parseURL agent = .ok (saved, id)) :
    ∀ row ∈ saved.agents, row ∈ state.tables.agents ∨ state.Owned row.name row.id := by
  intro row listed
  rcases A2ATables.saveA2A_agents saves row listed with old | ⟨named, sameId⟩
  · exact Or.inl old
  · right
    simp only [savesOwned, saves, named, Option.all_some] at owned
    rw [sameId]
    exact owned_of_ownedBy isolated owned

theorem enroll_owned (isolated : Isolated state) {env : Env} {req : RegReq} {group : A2AGroup}
    {name : String} {row : A2AUpstream} {token : Option String}
    (owned : state.savesOwned env (req.apply env row) = true) :
    ∀ agent ∈ (enroll env state.tables req group name row token).1.agents,
      agent ∈ state.tables.agents ∨ state.Owned agent.name agent.id := by
  unfold enroll
  split
  · exact fun _ => Or.inl
  · rename_i saved id saves
    split
    · exact saves_owned isolated owned saves
    · rename_i joined joins
      simp only [A2ATables.addAgentToGroup_agents joins]
      exact saves_owned isolated owned saves

theorem register_owned (isolated : Isolated state) {env : Env} {req : RegReq} {token : String}
    (admitted : state.isolates env (.register req token) = true) :
    ∀ agent ∈ (register env state.tables req token).1.agents,
      agent ∈ state.tables.agents ∨ state.Owned agent.name agent.id := by
  unfold register
  split
  · exact fun _ => Or.inl
  · split
    · exact fun _ => Or.inl
    · rename_i group invited
      split
      · exact fun _ => Or.inl
      · rename_i name named
        simp only [isolates, invited, named, Option.all_some] at admitted
        split
        · rename_i absent
          rw [absent] at admitted
          exact enroll_owned isolated admitted
        · rename_i row present
          rw [present] at admitted
          split
          · exact fun _ => Or.inl
          · split
            · exact enroll_owned isolated admitted
            · exact fun _ => Or.inl

/-- Every step keeps the isolation, as long as rows get mailboxes of their own and addressees are
confirmed. -/
theorem Isolated.step (isolated : Isolated state) {env : Env} {action : Action} {next : Gateway}
    (admitted : state.isolates env action = true) (fires : state.step env action = some next) :
    Isolated next := by
  cases action with
  | register req token =>
      cases fires
      exact isolated.setTables _ (register_owned isolated admitted)
  | saveA2A agent =>
      simp only [Gateway.step] at fires
      split at fires
      · rename_i saved id saves
        cases fires
        exact isolated.setTables saved (saves_owned isolated admitted saves)
      · cases fires
        exact isolated
  | deleteA2A id =>
      cases fires
      apply isolated.setTables
      intro agent listed
      exact Or.inl (List.mem_of_mem_filter listed)
  | setAgentGroups id groups =>
      simp only [Gateway.step] at fires
      split at fires
      · rename_i saved sets
        cases fires
        apply isolated.setTables
        rw [A2ATables.setAgentGroups_agents sets]
        exact fun _ => Or.inl
      · cases fires
        exact isolated
  | post bearer req now =>
      simp only [Gateway.step] at fires
      split at fires
      · rename_i posting posts
        rcases postMessage_spec posts with ⟨agents, targeted⟩
        have stored : Isolated { state with
            tables := posting.tables
            addressees := Function.update state.addressees posting.message.id
              (posting.target.map (·.id)) } := by
          have tables := isolated.setTables posting.tables (by
            rw [agents]
            exact fun _ => Or.inl)
          exact ⟨tables.conserved, fun agent listed =>
            ⟨(tables.named agent listed).queue, (tables.named agent listed).connections⟩,
            tables.channels, tables.returned, tables.deliveries, tables.calls⟩
        apply stored.forwardPosted _ _ fires
        · intro agent listed
          exact (targeted agent listed).row
        · intro agent listed _
          have target := targeted agent listed
          constructor
          · exact target.posted
          · exact target.member
          · simpa using target.addressed
      · cases fires
        exact isolated
  | confirm id =>
      simp only [Gateway.step] at fires
      split at fires
      · rename_i posting decides
        rcases decideA2AMessage_spec decides with
          ⟨agents, members, message, found, decided, targeted⟩
        have stored : Isolated { state with tables := posting.tables } := by
          apply isolated.setTables
          rw [agents]
          exact fun _ => Or.inl
        simp only [isolates, A2ATables.agentInGroup, found, Option.all_some, Bool.or_eq_true,
          decide_eq_true_eq] at admitted
        apply stored.forwardPosted _ _ fires
        · intro agent listed
          rcases mem_messageTargets (targeted agent listed) with ⟨_, isRow⟩ | ⟨_, row, _⟩
          · exact A2ATables.mem_of_getA2AByName isRow
          · exact row
        · intro agent listed enabled
          have isPosted : posting.message.status = .posted := by rw [decided]
          rcases mem_messageTargets (targeted agent listed) with
            ⟨hasAddressee, isRow⟩ | ⟨noAddressee, _, member⟩
          · have sameRow : state.tables.getA2AByName env.text message.toAgent = some agent := by
              simp only [decided, A2ATables.getA2AByName, agents] at isRow
              exact isRow
            have entitled := admitted.resolve_left (by
              simpa only [decided] using hasAddressee)
            simp only [sameRow, Option.all_some, enabled, Bool.not_true, Bool.false_or,
              Bool.and_eq_true, decide_eq_true_eq] at entitled
            constructor
            · exact isPosted
            · simpa only [decided, members] using entitled.1
            · intro _
              simpa only [decided] using entitled.2
          · exact ⟨isPosted, member, fun hasAddressee => absurd noAddressee hasAddressee⟩
      · cases fires
        exact isolated
  | reject id =>
      simp only [Gateway.step] at fires
      split at fires
      · rename_i posting decides
        cases fires
        apply isolated.setTables
        rw [(decideA2AMessage_spec decides).1]
        exact fun _ => Or.inl
      · cases fires
        exact isolated
  | connect bearer =>
      simp only [Gateway.step] at fires
      split at fires
      · rename_i self isCaller
        cases fires
        have here := isolated.conserved self.name
        have takes : (state.boxes self.name).step .takeAgent =
            some (state.boxes self.name).takeAgent := rfl
        have moved := isolated.move
          (Function.update (state.holders self.name) (state.boxes self.name).taken (some self.id))
          (state.transcripts self.name) state.calls (here.step takes) (moves_of_take here.channels)
          (fun _ never => never.elim) ?_ (fun _ _ => Or.inl) ?_ ?_ (fun _ => Or.inl)
        · simpa only [Function.update_eq_self] using moved
        · intro n delivery isPush
          exact (isolated.deliveries self.name n delivery isPush).1.trans_le
            (Mailbox.pushed_le_step takes)
        · rintro t rfl
          exact ⟨rfl, self, mem_of_caller isCaller, rfl, by simp⟩
        · intro t other
          simp [other]
      · cases fires
        exact isolated
  | mailbox name action =>
      have notTake : action ≠ .takeAgent := by
        rintro rfl
        cases fires
      rw [step_mailbox notTake] at fires
      rcases Option.map_eq_some_iff.mp fires with ⟨box, boxStep, rfl⟩
      have here := isolated.conserved name
      have moved := isolated.move (state.holders name) (state.transcripts name) state.calls
        (here.step boxStep) (moves_of_step here.channels boxStep notTake) (fun _ same => same)
        ?_ (fun _ _ => Or.inl) (fun _ never => never.elim) (fun _ _ => rfl) (fun _ => Or.inl)
      · simpa only [Function.update_eq_self] using moved
      · intro n delivery isPush
        exact (isolated.deliveries name n delivery isPush).1.trans_le
          (Mailbox.pushed_le_step boxStep)

end Invariant

section Runs

/-- In a run in which rows get mailboxes of their own and addressees are confirmed, a transcript
push is handed to a row, and sent to the URL of a row, that was in the group of the message when
it was pushed and that it was addressed to. -/
theorem group_delivery_isolation {env : Env} {tables : A2ATables}
    {addressees : MessageId → Option AgentId} {actions : List Action} {state : Gateway}
    (run : Run (step env) (fun state action => state.isolates env action = true)
      (start tables addressees) actions state) :
    (∀ name t n busy delivery, (state.boxes name).takes t = .returned (some n) busy →
      state.transcripts name n = some delivery →
        ∃ row, state.holders name t = some row ∧ delivery.Entitles row) ∧
      ∀ call ∈ state.calls, call.1.Entitles call.1.row := by
  have isolated : Isolated state := by
    apply run.invariant
    · exact Isolated.start tables addressees
    · intro before after action isolated admitted fires
      exact isolated.step admitted fires
  constructor
  · intro name t n busy delivery returned isPush
    have entitles := (isolated.deliveries name n delivery isPush).2
    exact ⟨delivery.row, isolated.returned name t n busy delivery returned isPush, entitles⟩
  · exact isolated.calls

mutual

/-- The text of a value without numbers and without characters that are escaped. -/
def plainJson : Json → String
  | .string text => "\"" ++ text ++ "\""
  | .array items => "[" ++ plainItems items ++ "]"
  | .object fields => "\x7b" ++ plainFields fields ++ "\x7d"
  | .bool value => toString value
  | _ => "null"

def plainItems : List Json → String
  | [] => ""
  | [item] => plainJson item
  | item :: rest => plainJson item ++ "," ++ plainItems rest

def plainFields : List (String × Json) → String
  | [] => ""
  | [(key, value)] => "\"" ++ key ++ "\":" ++ plainJson value
  | (key, value) :: rest => "\"" ++ key ++ "\":" ++ plainJson value ++ "," ++ plainFields rest

end

def lineEnv : Env :=
  { plainEnv with marshal := plainJson }

/-- The addressee polls while its message is confirmed. -/
def confirmed : List Action :=
  [.connect "agt-1", .post "agt-2" ⟨"orders", "holix", "Ready", true⟩ "", .confirm 2,
    .mailbox "holix" (.receive 0)]

theorem group_delivery_isolation_confirmed :
    ∃ state delivery, Run (step lineEnv) (fun state action => state.isolates lineEnv action = true)
        (start ordersTables fun _ => none) confirmed state ∧
      (state.boxes "holix").takes 0 = .returned (some 0) false ∧
        state.transcripts "holix" 0 = some delivery ∧
          ∃ row, state.holders "holix" 0 = some row ∧ delivery.Entitles row := by
  have ran : (execWhen (step lineEnv) (isolates lineEnv) (start ordersTables fun _ => none)
      confirmed).any (fun state => (state.boxes "holix").takes 0 = .returned (some 0) false &&
        (state.transcripts "holix" 0).isSome) = true := by
    decide +kernel
  rcases (Option.any_eq_true _ _).mp ran with ⟨state, executed, facts⟩
  simp only [Bool.and_eq_true, decide_eq_true_eq, Option.isSome_iff_exists] at facts
  rcases facts with ⟨returned, delivery, isPush⟩
  have run := run_of_execWhen executed
  have entitled := (group_delivery_isolation run).1 "holix" 0 0 false delivery returned isPush
  exact ⟨state, delivery, run, returned, isPush, entitled⟩

/-- The addressee of a pending message leaves the group before the message is confirmed. -/
def confirmedLate : List Action :=
  [.post "agt-2" ⟨"orders", "holix", "Ready", true⟩ "", .setAgentGroups 1 [], .confirm 2,
    .connect "agt-1"]

/-- A message waits in the mailbox of an agent that is deleted, and another one registers its name. -/
def nameReused : List Action :=
  [.post "agt-2" ⟨"orders", "holix", "Ready", false⟩ "", .deleteA2A 1,
    .saveA2A { holix with id := 0, authHash := "agt-3" }, .connect "agt-3"]

/-- An agent that was removed from the group receives the message, and so does a new agent that
has the name of a deleted one. -/
theorem not_group_delivery_isolation :
    (∃ state delivery, Run (step lineEnv) (fun _ _ => True) (start ordersTables fun _ => none)
        confirmedLate state ∧ (state.boxes "holix").takes 0 = .returned (some 0) false ∧
        state.holders "holix" 0 = some 1 ∧ state.transcripts "holix" 0 = some delivery ∧
          delivery.message.groupId = 1 ∧ (1, 1) ∉ delivery.members) ∧
      ∃ state delivery, Run (step lineEnv) (fun _ _ => True) (start ordersTables fun _ => none)
        nameReused state ∧ (state.boxes "holix").takes 0 = .returned (some 0) false ∧
        state.holders "holix" 0 = some 3 ∧ state.transcripts "holix" 0 = some delivery ∧
          delivery.message.groupId = 1 ∧ (1, 3) ∉ delivery.members := by
  constructor
  · have ran : (exec (step lineEnv) (start ordersTables fun _ => none) confirmedLate).any
        (fun state => (state.boxes "holix").takes 0 = .returned (some 0) false &&
          (state.holders "holix" 0 = some 1 && (state.transcripts "holix" 0).any fun delivery =>
            delivery.message.groupId = 1 && (1, 1) ∉ delivery.members)) = true := by
      decide +kernel
    rcases (Option.any_eq_true _ _).mp ran with ⟨state, executed, facts⟩
    simp only [Bool.and_eq_true, decide_eq_true_eq, Option.any_eq_true] at facts
    rcases facts with ⟨returned, holder, delivery, isPush, outside⟩
    exact ⟨state, delivery, run_of_exec executed, returned, holder, isPush, outside⟩
  · have ran : (exec (step lineEnv) (start ordersTables fun _ => none) nameReused).any
        (fun state => (state.boxes "holix").takes 0 = .returned (some 0) false &&
          (state.holders "holix" 0 = some 3 && (state.transcripts "holix" 0).any fun delivery =>
            delivery.message.groupId = 1 && (1, 3) ∉ delivery.members)) = true := by
      decide +kernel
    rcases (Option.any_eq_true _ _).mp ran with ⟨state, executed, facts⟩
    simp only [Bool.and_eq_true, decide_eq_true_eq, Option.any_eq_true] at facts
    rcases facts with ⟨returned, holder, delivery, isPush, outside⟩
    exact ⟨state, delivery, run_of_exec executed, returned, holder, isPush, outside⟩

end Runs

end Gateway

end MikroLLM.A2A
