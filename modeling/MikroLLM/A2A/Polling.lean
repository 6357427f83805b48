import MikroLLM.A2A.Paging
import MikroLLM.Library.Runs

/-!
# An agent that polls

An agent polls `GET /a2a/messages` and always sends the largest id that it was
given, while others post and an admin decides. A poll reads one group after the
other, so posts and decisions fall between its reads, too. A message keeps its
id when it is confirmed, and the ids that a poll has seen may be past it.
-/

namespace MikroLLM.A2A

open Domain Go Library Store

/-- A poll under way: the groups still to be read and those that were, the lines found so far.
`due` are, as a history, the messages of others that were posted when it began. -/
structure Poll where
  reader : A2AUpstream
  after : ℕ
  rest : List A2AGroup
  done : List A2AGroup
  found : List PublicMessage
  due : List MessageId

/-- The page of a poll that has read all groups. -/
def Poll.page (poll : Poll) : List PublicMessage :=
  (orderBy (·.id) poll.found).take 100

/-- The store and what the agent was given. `owed` are the messages that were due in the polls that
have been answered. -/
structure Polling where
  tables : A2ATables
  returned : List PublicMessage
  poll : Option Poll
  owed : List MessageId

/-- The largest id of these lines, zero when there are none. -/
def largest (lines : List PublicMessage) : ℕ :=
  (lines.map (·.id)).foldr max 0

/-- A posted message of another agent in these groups. -/
def postedTo (reader : A2AUpstream) (groups : List A2AGroup) (message : A2AMessage) : Bool :=
  message.status = .posted && message.fromAgent ≠ reader.name &&
    groups.any (·.id = message.groupId)

/-- A poll that has read nothing. -/
def Poll.start (tables : A2ATables) (after : ℕ) (reader : A2AUpstream) (groups : List A2AGroup) :
    Poll where
  reader := reader
  after := after
  rest := groups
  done := []
  found := []
  due := (tables.messages.filter (postedTo reader groups)).map (·.id)

/-- A pending message of another agent in these groups. -/
def pendingTo (reader : A2AUpstream) (groups : List A2AGroup) (message : A2AMessage) : Bool :=
  message.status = .pending && message.fromAgent ≠ reader.name &&
    groups.any (·.id = message.groupId)

/-- What a poll finds in one group. -/
def linesOf (tables : A2ATables) (reader : A2AUpstream) (after : ℕ) (group : A2AGroup) :
    List PublicMessage :=
  ((tables.listA2AMessages group.id (parseInt (toString after)) 100).filter
    (visibleTo reader)).map (publicMessage group.name)

section System

variable (env : Env) (bearer group : String)

/-- The start of `listMessages`. -/
def readerOf (tables : A2ATables) : Except ApiError (A2AUpstream × List A2AGroup) := do
  let reader ← caller env tables bearer
  let groups ← memberGroups env tables reader.id group
  return (reader, groups)

/-- One statement of a handler: `INSERT` of `postMessage`, `UPDATE` of a decision, the begin of a
poll of the agent, the query for one of its groups, and the end with the answer. -/
inductive PollingAction
  | post (message : A2AMessage)
  | decide (id : MessageId) (status : A2AStatus)
  | begin
  | read
  | answer

namespace Polling

/-- One step. SQLite has no row for an id beyond its integers. -/
def step (state : Polling) : PollingAction → Option Polling
  | .post message =>
      if state.tables.nextMessage < 2 ^ 63 then
        match state.tables.insertA2AMessage message with
        | .ok (stored, _) => some { state with tables := stored }
        | .error _ => some state
      else some state
  | .decide id status =>
      match state.tables.setA2AMessageStatus id status with
      | .ok decided => some { state with tables := decided }
      | .error _ => some state
  | .begin =>
      match state.poll with
      | some _ => none
      | none =>
          match readerOf env bearer group state.tables with
          | .error _ => some state
          | .ok (reader, groups) => some { state with
              poll := some (.start state.tables (largest state.returned) reader groups) }
  | .read =>
      match state.poll with
      | some poll =>
          match poll.rest with
          | next :: rest => some { state with
              poll := some { poll with
                rest := rest
                done := poll.done ++ [next]
                found := poll.found ++ linesOf state.tables poll.reader poll.after next } }
          | [] => none
      | none => none
  | .answer =>
      match state.poll with
      | some poll =>
          match poll.rest with
          | [] => some { state with
              returned := state.returned ++ poll.page
              poll := none
              owed := state.owed ++ poll.due }
          | _ :: _ => none
      | none => none

/-- An agent that was given nothing so far. -/
def start (tables : A2ATables) : Polling :=
  ⟨tables, [], none, []⟩

/-- A group that is read has fewer than a hundred messages. -/
def few (state : Polling) : PollingAction → Bool
  | .read => state.poll.all fun poll => (poll.rest.head?.all fun next =>
      (state.tables.messages.filter (·.groupId = next.id)).length < 100)
  | _ => true

/-- A message of another agent is confirmed only while its id lies after all that the agent was
given, and after what the poll under way has found when that has read its group. -/
def confirmsAhead (state : Polling) (id : MessageId) : Bool :=
  match readerOf env bearer group state.tables with
  | .error _ => true
  | .ok (reader, groups) =>
      (state.tables.messages.filter fun message =>
        message.id = id && pendingTo reader groups message).all fun message =>
          largest state.returned < message.id &&
            state.poll.all fun poll => (!poll.done.any (·.id = message.groupId) ||
              poll.found.all (·.id < message.id))

/-- A read finds nothing that lies after a message which was posted behind the poll. -/
def readsBehind (tables : A2ATables) (poll : Poll) : Bool :=
  (poll.rest.head?.all fun next =>
    (tables.messages.filter fun message => postedTo poll.reader poll.done message &&
      poll.after < message.id && message.id ∉ poll.found.map (·.id)).all fun message =>
        (linesOf tables poll.reader poll.after next).all (·.id < message.id))

/-- No step of a run loses a message: confirmations come ahead of the polls, reads find nothing
that lies after a message posted behind them, and no line that is due is beyond the page. -/
def keepsUp (state : Polling) : PollingAction → Bool
  | .decide id .posted => state.confirmsAhead env bearer group id
  | .read => state.poll.all (readsBehind state.tables)
  | .answer => state.poll.all fun poll =>
      ((orderBy (·.id) poll.found).drop 100).all (·.id ∉ poll.due)
  | _ => true

/-- What was owed was given, once. -/
def Delivered (state : Polling) : Prop :=
  ∀ id ∈ state.owed, (state.returned.map (·.id)).count id = 1

end Polling

end System

section Facts

theorem Poll.mem_of_page {poll : Poll} {line : PublicMessage} (inPage : line ∈ poll.page) :
    line ∈ poll.found :=
  mem_orderBy.mp (List.mem_of_mem_take inPage)

theorem le_largest {lines : List PublicMessage} {line : PublicMessage} (listed : line ∈ lines) :
    line.id ≤ largest lines := by
  induction lines with
  | nil => simp at listed
  | cons first rest ih =>
      simp only [largest, List.map_cons, List.foldr_cons] at ih ⊢
      rcases List.mem_cons.mp listed with rfl | later
      · exact le_max_left _ _
      · exact le_max_of_le_right (ih later)

/-- The largest id is that of a line, unless it is zero. -/
theorem largest_cases (lines : List PublicMessage) :
    largest lines = 0 ∨ ∃ line ∈ lines, line.id = largest lines := by
  induction lines with
  | nil => exact Or.inl rfl
  | cons first rest ih =>
      simp only [largest, List.map_cons, List.foldr_cons] at ih ⊢
      rcases le_total (List.foldr max 0 (rest.map (·.id))) first.id with le | le
      · exact Or.inr ⟨first, List.mem_cons_self, (max_eq_left le).symm⟩
      · rw [max_eq_right le]
        rcases ih with zero | ⟨line, listed, same⟩
        · exact Or.inl zero
        · exact Or.inr ⟨line, List.mem_cons_of_mem _ listed, same⟩

theorem largest_lt_of_forall {lines : List PublicMessage} {id : ℕ} (below : ∀ line ∈ lines, line.id < id)
    (positive : 0 < id) : largest lines < id := by
  rcases largest_cases lines with zero | ⟨line, listed, same⟩
  · rwa [zero]
  · rw [← same]
    exact below line listed

theorem postedTo_iff {reader : A2AUpstream} {groups : List A2AGroup} {message : A2AMessage} :
    postedTo reader groups message = true ↔
      message.status = .posted ∧ message.fromAgent ≠ reader.name ∧
        ∃ group ∈ groups, group.id = message.groupId := by
  simp [postedTo, and_assoc]

theorem pendingTo_iff {reader : A2AUpstream} {groups : List A2AGroup} {message : A2AMessage} :
    pendingTo reader groups message = true ↔
      message.status = .pending ∧ message.fromAgent ≠ reader.name ∧
        ∃ group ∈ groups, group.id = message.groupId := by
  simp [pendingTo, and_assoc]

/-- Posts and decisions leave the agents and the groups alone. -/
theorem readerOf_congr {env : Env} {bearer group : String} {first second : A2ATables}
    (agents : second.agents = first.agents) (groups : second.groups = first.groups)
    (members : second.members = first.members) :
    readerOf env bearer group second = readerOf env bearer group first := by
  have sameCaller : caller env second bearer = caller env first bearer := by
    simp only [caller, A2ATables.getA2AByAuthHash, agents]
  have sameGroups : ∀ agentId, memberGroups env second agentId group =
      memberGroups env first agentId group := by
    intro agentId
    have sameMine : second.agentGroups agentId = first.agentGroups agentId := by
      simp only [A2ATables.agentGroups, groups, members]
    simp only [memberGroups, sameMine]
  simp only [readerOf, sameCaller, sameGroups]

theorem readerOf_ok {env : Env} {bearer group : String} {tables : A2ATables}
    {reader : A2AUpstream} {groups : List A2AGroup}
    (reads : readerOf env bearer group tables = .ok (reader, groups)) :
    caller env tables bearer = .ok reader ∧
      memberGroups env tables reader.id group = .ok groups := by
  unfold readerOf at reads
  cases isCaller : caller env tables bearer with
  | error refusal =>
      rw [isCaller] at reads
      exact nomatch reads
  | ok found =>
      rw [isCaller] at reads
      cases member : memberGroups env tables found.id group with
      | error refusal =>
          simp only [bind, Except.bind, member] at reads
          exact nomatch reads
      | ok mine =>
          simp only [bind, Except.bind, member, pure, Except.pure, Except.ok.injEq,
            Prod.mk.injEq] at reads
          rcases reads with ⟨rfl, rfl⟩
          exact ⟨rfl, member⟩

end Facts

namespace Polling

section Invariant

variable {env : Env} {bearer group : String} {state next : Polling}

/-- What is known of a poll under way. -/
structure PollFacts (env : Env) (bearer group : String) (tables : A2ATables)
    (returned : List PublicMessage) (poll : Poll) : Prop where
  reads : readerOf env bearer group tables = .ok (poll.reader, poll.done ++ poll.rest)
  after : poll.after = largest returned
  distinct : (poll.found.map (·.id)).Nodup
  rows : ∀ line ∈ poll.found, poll.after < line.id ∧
    ∃ message ∈ tables.messages, message.id = line.id ∧
      ∃ group ∈ poll.done, group.id = message.groupId
  seen : ∀ message ∈ tables.messages, postedTo poll.reader poll.done message = true →
    poll.after < message.id → message.id ∈ poll.found.map (·.id) ∨
      ∀ line ∈ poll.found, line.id < message.id
  due : ∀ id ∈ poll.due, (id ≤ poll.after → id ∈ returned.map (·.id)) ∧
    ∃ message ∈ tables.messages, message.id = id ∧
      postedTo poll.reader (poll.done ++ poll.rest) message = true ∧
      (poll.after < id → (∃ group ∈ poll.done, group.id = message.groupId) →
        id ∈ poll.found.map (·.id))

/-- What is known of the agent. -/
structure KeptUp (env : Env) (bearer group : String) (state : Polling) : Prop where
  rowIds : RowIds state.tables
  next_pos : 0 < state.tables.nextMessage
  rows : ∀ line ∈ state.returned, ∃ message ∈ state.tables.messages, message.id = line.id
  distinct : (state.returned.map (·.id)).Nodup
  complete : ∀ reader groups, readerOf env bearer group state.tables = .ok (reader, groups) →
    ∀ message ∈ state.tables.messages, postedTo reader groups message = true →
      message.id ≤ largest state.returned → message.id ∈ state.returned.map (·.id)
  owed : ∀ id ∈ state.owed, id ∈ state.returned.map (·.id)
  poll : ∀ poll, state.poll = some poll →
    PollFacts env bearer group state.tables state.returned poll

theorem KeptUp.largest_lt (kept : KeptUp env bearer group state) :
    largest state.returned < state.tables.nextMessage := by
  rcases largest_cases state.returned with zero | ⟨line, listed, same⟩
  · rw [zero]
    exact kept.next_pos
  · rcases kept.rows line listed with ⟨message, isRow, sameId⟩
    rw [← same, ← sameId]
    exact state.tables.messages_id_lt message isRow

/-- Tables whose rows are still there, with new posted rows behind all polls. -/
structure Grows (env : Env) (bearer group : String) (state : Polling) (tables : A2ATables) :
    Prop where
  rowIds : RowIds tables
  next_pos : 0 < tables.nextMessage
  sameReader : readerOf env bearer group tables = readerOf env bearer group state.tables
  keeps : ∀ old ∈ state.tables.messages, ∃ message ∈ tables.messages, message.id = old.id ∧
    message.groupId = old.groupId ∧ (old.status = .posted → message = old)
  fresh : ∀ message ∈ tables.messages, ∀ reader groups,
    readerOf env bearer group tables = .ok (reader, groups) → postedTo reader groups message = true →
      message ∈ state.tables.messages ∨ (largest state.returned < message.id ∧
        ∀ poll, state.poll = some poll → (∃ group ∈ poll.done, group.id = message.groupId) →
          ∀ line ∈ poll.found, line.id < message.id)

theorem KeptUp.grows (kept : KeptUp env bearer group state) {tables : A2ATables}
    (grows : Grows env bearer group state tables) :
    KeptUp env bearer group { state with tables := tables } := by
  refine ⟨grows.rowIds, grows.next_pos, ?_, kept.distinct, ?_, kept.owed, ?_⟩
  · intro line listed
    rcases kept.rows line listed with ⟨old, isRow, sameId⟩
    rcases grows.keeps old isRow with ⟨message, stays, stillId, _⟩
    exact ⟨message, stays, stillId.trans sameId⟩
  · intro reader groups reads message isRow posted small
    rcases grows.fresh message isRow reader groups reads posted with old | ⟨large, _⟩
    · exact kept.complete reader groups (grows.sameReader ▸ reads) message old posted small
    · exact absurd small (Nat.not_le.mpr large)
  · intro poll isPoll
    have facts := kept.poll poll isPoll
    refine ⟨grows.sameReader.trans facts.reads, facts.after, facts.distinct, ?_, ?_, ?_⟩
    · intro line listed
      rcases facts.rows line listed with ⟨beyond, old, isRow, sameId, group, wasRead, ofGroup⟩
      rcases grows.keeps old isRow with ⟨message, stays, stillId, stillGroup, _⟩
      exact ⟨beyond, message, stays, stillId.trans sameId, group, wasRead,
        ofGroup.trans stillGroup.symm⟩
    · intro message isRow posted beyond
      rcases postedTo_iff.mp posted with ⟨isPosted, other, found, wasRead, ofGroup⟩
      have inGroups : postedTo poll.reader (poll.done ++ poll.rest) message = true :=
        postedTo_iff.mpr ⟨isPosted, other, found, List.mem_append_left _ wasRead, ofGroup⟩
      rcases grows.fresh message isRow _ _ (grows.sameReader.trans facts.reads) inGroups with
        old | ⟨_, ahead⟩
      · exact facts.seen message old posted beyond
      · exact Or.inr (ahead poll isPoll ⟨found, wasRead, ofGroup⟩)
    · intro id isDue
      rcases facts.due id isDue with ⟨before, old, isRow, sameId, posted, wasFound⟩
      rcases grows.keeps old isRow with ⟨message, stays, _, _, unchanged⟩
      have same := unchanged (postedTo_iff.mp posted).1
      subst same
      exact ⟨before, message, stays, sameId, posted, wasFound⟩

theorem KeptUp.post (kept : KeptUp env bearer group state) {message row : A2AMessage}
    {stored : A2ATables} (small : state.tables.nextMessage < 2 ^ 63)
    (inserts : state.tables.insertA2AMessage message = .ok (stored, row)) :
    KeptUp env bearer group { state with tables := stored } := by
  rcases A2ATables.insertA2AMessage_messages inserts with ⟨messages, rowId, nextId⟩
  rcases A2ATables.insertA2AMessage_spec inserts with ⟨agents, groups, members, _⟩
  apply kept.grows
  constructor
  · intro any isRow
    rw [messages] at isRow
    rcases List.mem_append.mp isRow with old | new
    · exact kept.rowIds any old
    · rw [List.mem_singleton.mp new, rowId]
      exact ⟨kept.next_pos, small⟩
  · rw [nextId]
    exact Nat.succ_pos _
  · exact readerOf_congr agents groups members
  · intro old isRow
    refine ⟨old, ?_, rfl, rfl, fun _ => rfl⟩
    rw [messages]
    exact List.mem_append_left _ isRow
  · intro any isRow reader mine _ _
    rw [messages] at isRow
    rcases List.mem_append.mp isRow with old | new
    · exact Or.inl old
    · right
      rw [List.mem_singleton.mp new, rowId]
      refine ⟨kept.largest_lt, fun poll isPoll _ line listed => ?_⟩
      rcases ((kept.poll poll isPoll).rows line listed).2 with ⟨found, inside, sameId, _⟩
      rw [← sameId]
      exact state.tables.messages_id_lt found inside

theorem confirmsAhead_spec {id : MessageId} {reader : A2AUpstream} {groups : List A2AGroup}
    {message : A2AMessage} (isAhead : state.confirmsAhead env bearer group id = true)
    (reads : readerOf env bearer group state.tables = .ok (reader, groups))
    (isRow : message ∈ state.tables.messages) (isId : message.id = id)
    (pends : pendingTo reader groups message = true) :
    largest state.returned < message.id ∧ ∀ poll, state.poll = some poll →
      (∃ group ∈ poll.done, group.id = message.groupId) →
        ∀ line ∈ poll.found, line.id < message.id := by
  simp only [confirmsAhead, reads, List.all_eq_true, List.mem_filter, Bool.and_eq_true,
    decide_eq_true_eq] at isAhead
  rcases isAhead message ⟨isRow, isId, pends⟩ with ⟨beyond, aheadOfPoll⟩
  refine ⟨beyond, fun poll isPoll wasRead line listed => ?_⟩
  simp only [isPoll, Option.all_some, Bool.or_eq_true, Bool.not_eq_true', List.any_eq_false,
    decide_eq_true_eq, List.all_eq_true] at aheadOfPoll
  rcases wasRead with ⟨found, isDone, ofGroup⟩
  rcases aheadOfPoll with unread | ahead
  · exact absurd ofGroup (unread found isDone)
  · exact ahead line listed

theorem KeptUp.decide (kept : KeptUp env bearer group state) {id : MessageId} {status : A2AStatus}
    {decided : A2ATables} (ahead : status = .posted → state.confirmsAhead env bearer group id = true)
    (sets : state.tables.setA2AMessageStatus id status = .ok decided) :
    KeptUp env bearer group { state with tables := decided } := by
  rcases A2ATables.setA2AMessageStatus_messages sets with ⟨messages, nextId, _, _⟩
  rcases A2ATables.setA2AMessageStatus_spec sets with ⟨agents, groups, members⟩
  have sameReader : readerOf env bearer group decided = readerOf env bearer group state.tables :=
    readerOf_congr agents groups members
  apply kept.grows
  constructor
  · intro message isRow
    rw [messages] at isRow
    rcases A2ATables.mem_decideMessage isRow with ⟨old, inside, sameId, _⟩
    rw [sameId]
    exact kept.rowIds old inside
  · rw [nextId]
    exact kept.next_pos
  · exact sameReader
  · intro old isRow
    rw [messages]
    rcases A2ATables.exists_mem_decideMessage isRow with
      ⟨message, stays, sameId, sameGroup, _, unchanged⟩
    exact ⟨message, stays, sameId, sameGroup, fun posted => unchanged (by simp [posted])⟩
  · intro message isRow reader mine reads posted
    rw [messages] at isRow
    rcases A2ATables.mem_decideMessage isRow with
      ⟨old, inside, sameId, sameGroup, sameSender, ⟨isId, wasPending, becomes⟩ | rfl⟩
    · right
      rcases postedTo_iff.mp posted with ⟨isPosted, other, inMine⟩
      have isAhead := ahead (becomes.symm.trans isPosted)
      have pends : pendingTo reader mine old = true :=
        pendingTo_iff.mpr ⟨wasPending, sameSender ▸ other, sameGroup ▸ inMine⟩
      rw [sameId, sameGroup]
      exact confirmsAhead_spec isAhead (sameReader ▸ reads) inside isId pends
    · exact Or.inl inside

theorem KeptUp.begin (kept : KeptUp env bearer group state) {reader : A2AUpstream}
    {groups : List A2AGroup}
    (reads : readerOf env bearer group state.tables = .ok (reader, groups)) :
    KeptUp env bearer group { state with
      poll := some (.start state.tables (largest state.returned) reader groups) } := by
  refine ⟨kept.rowIds, kept.next_pos, kept.rows, kept.distinct, kept.complete, kept.owed, ?_⟩
  intro poll isPoll
  rw [Option.some.injEq] at isPoll
  subst isPoll
  refine ⟨reads, rfl, List.nodup_nil, ?_, ?_, ?_⟩
  · intro line listed
    simp [Poll.start] at listed
  · intro message _ posted
    simp [postedTo, Poll.start] at posted
  · intro id isDue
    rcases List.mem_map.mp isDue with ⟨message, inside, rfl⟩
    rcases List.mem_filter.mp inside with ⟨isRow, posted⟩
    refine ⟨kept.complete reader groups reads message isRow posted, message, isRow, rfl, posted, ?_⟩
    intro _ wasRead
    simp [Poll.start] at wasRead

/-- What a poll finds in a group with few messages. -/
theorem mem_linesOf {tables : A2ATables} {reader : A2AUpstream} {after : ℕ} {next : A2AGroup}
    {line : PublicMessage} (ids : RowIds tables)
    (few : (tables.messages.filter (·.groupId = next.id)).length < 100) :
    line ∈ linesOf tables reader after next ↔
      ∃ message ∈ tables.messages, message.groupId = next.id ∧ after < message.id ∧
        visibleTo reader message = true ∧ line = publicMessage next.name message := by
  have notNegative : ¬(after : ℤ) < 0 := by omega
  simp only [linesOf, listA2AMessages_parsed ids, listA2AMessages_visible few, if_neg notNegative,
    List.mem_map, mem_orderBy, List.mem_filter, Bool.and_eq_true, decide_eq_true_eq, Int.ofNat_lt]
  constructor
  · rintro ⟨message, ⟨isRow, ⟨ofGroup, beyond⟩, visible⟩, rfl⟩
    exact ⟨message, isRow, ofGroup, beyond, visible, rfl⟩
  · rintro ⟨message, isRow, ofGroup, beyond, visible, rfl⟩
    exact ⟨message, ⟨isRow, ⟨ofGroup, beyond⟩, visible⟩, rfl⟩

theorem linesOf_id_nodup {tables : A2ATables} {reader : A2AUpstream} {after : ℕ}
    {next : A2AGroup} : ((linesOf tables reader after next).map (·.id)).Nodup := by
  have ids : (linesOf tables reader after next).map (·.id) =
      ((tables.listA2AMessages next.id (parseInt (toString after)) 100).filter
        (visibleTo reader)).map (·.id) := by
    rw [linesOf, List.map_map]
    rfl
  rw [ids]
  refine List.Nodup.sublist (List.filter_sublist.map _) ?_
  refine List.Nodup.sublist ((List.take_sublist _ _).map _) ?_
  rw [((orderBy_perm _ _).map _).nodup_iff]
  exact tables.messages_id_nodup.sublist (List.filter_sublist.map _)

theorem visibleTo_of_posted {reader : A2AUpstream} {message : A2AMessage}
    (posted : message.status = .posted) : visibleTo reader message = true := by
  simp [visibleTo, posted]

theorem KeptUp.read (kept : KeptUp env bearer group state) {poll : Poll} {next : A2AGroup}
    {rest : List A2AGroup} (isPoll : state.poll = some poll) (toRead : poll.rest = next :: rest)
    (few : (state.tables.messages.filter (·.groupId = next.id)).length < 100)
    (behind : readsBehind state.tables poll = true) :
    KeptUp env bearer group { state with
      poll := some { poll with
        rest := rest
        done := poll.done ++ [next]
        found := poll.found ++ linesOf state.tables poll.reader poll.after next } } := by
  have facts := kept.poll poll isPoll
  have lines : ∀ line, line ∈ linesOf state.tables poll.reader poll.after next ↔ _ :=
    fun line => mem_linesOf kept.rowIds few
  have distinctGroups := memberGroups_id_nodup (readerOf_ok facts.reads).2
  rw [toRead] at distinctGroups
  have nextIsNew : ∀ found ∈ poll.done, found.id ≠ next.id := by
    intro found wasRead sameId
    rw [List.map_append, List.nodup_append] at distinctGroups
    exact distinctGroups.2.2 found.id (List.mem_map_of_mem wasRead) next.id (by simp) sameId
  refine ⟨kept.rowIds, kept.next_pos, kept.rows, kept.distinct, kept.complete, kept.owed, ?_⟩
  intro after isAfter
  rw [Option.some.injEq] at isAfter
  subst isAfter
  refine ⟨?_, facts.after, ?_, ?_, ?_, ?_⟩
  · have reads := facts.reads
    rw [toRead] at reads
    simpa using reads
  · rw [List.map_append, List.nodup_append]
    refine ⟨facts.distinct, linesOf_id_nodup, ?_⟩
    intro first inFound second inLines sameId
    rcases List.mem_map.mp inFound with ⟨old, oldFound, rfl⟩
    rcases List.mem_map.mp inLines with ⟨new, newFound, rfl⟩
    rcases (facts.rows old oldFound).2 with ⟨message, isRow, isId, found, wasRead, ofGroup⟩
    rcases (lines new).mp newFound with ⟨other, otherRow, ofNext, _, _, rfl⟩
    have same := A2ATables.message_ext isRow otherRow (isId.trans sameId)
    subst same
    exact nextIsNew found wasRead (ofGroup.trans ofNext)
  · intro line listed
    rcases List.mem_append.mp listed with old | new
    · rcases facts.rows line old with ⟨beyond, message, isRow, isId, found, wasRead, ofGroup⟩
      exact ⟨beyond, message, isRow, isId, found, List.mem_append_left _ wasRead, ofGroup⟩
    · rcases (lines line).mp new with ⟨message, isRow, ofNext, beyond, _, rfl⟩
      exact ⟨beyond, message, isRow, rfl, next, List.mem_append_right _ (List.mem_singleton_self _),
        ofNext.symm⟩
  · intro message isRow posted beyond
    rcases postedTo_iff.mp posted with ⟨isPosted, other, found, wasRead, ofGroup⟩
    rcases List.mem_append.mp wasRead with before | now
    · have stillPosted : postedTo poll.reader poll.done message = true :=
        postedTo_iff.mpr ⟨isPosted, other, found, before, ofGroup⟩
      by_cases wasFound : message.id ∈ poll.found.map (·.id)
      · left
        rw [List.map_append]
        exact List.mem_append_left _ wasFound
      · have ahead := (facts.seen message isRow stillPosted beyond).resolve_left wasFound
        right
        intro line listed
        rcases List.mem_append.mp listed with old | new
        · exact ahead line old
        · simp only [readsBehind, toRead, List.head?_cons, Option.all_some, List.all_eq_true,
            List.mem_filter, Bool.and_eq_true, decide_eq_true_eq] at behind
          exact behind message ⟨isRow, ⟨stillPosted, beyond⟩, wasFound⟩ line new
    · left
      rw [List.mem_singleton.mp now] at ofGroup
      rw [List.map_append]
      apply List.mem_append_right
      exact List.mem_map_of_mem ((lines (publicMessage next.name message)).mpr
        ⟨message, isRow, ofGroup.symm, beyond, visibleTo_of_posted isPosted, rfl⟩)
  · intro id isDue
    rcases facts.due id isDue with ⟨before, message, isRow, isId, posted, wasFound⟩
    rw [toRead] at posted
    refine ⟨before, message, isRow, isId, ?_, ?_⟩
    · simpa using posted
    · rintro beyond ⟨found, wasRead, ofGroup⟩
      rw [List.map_append]
      rcases List.mem_append.mp wasRead with earlier | now
      · exact List.mem_append_left _ (wasFound beyond ⟨found, earlier, ofGroup⟩)
      · rw [List.mem_singleton.mp now] at ofGroup
        apply List.mem_append_right
        rw [← isId] at beyond ⊢
        exact List.mem_map_of_mem ((lines (publicMessage next.name message)).mpr
          ⟨message, isRow, ofGroup.symm, beyond,
            visibleTo_of_posted (postedTo_iff.mp posted).1, rfl⟩)

theorem PollFacts.sorted {tables : A2ATables} {returned : List PublicMessage} {poll : Poll}
    (facts : PollFacts env bearer group tables returned poll) :
    (orderBy (·.id) poll.found).Pairwise fun first second => first.id < second.id := by
  have ids : ((orderBy (·.id) poll.found).map (·.id)).Nodup :=
    ((orderBy_perm _ _).map _).nodup_iff.mpr facts.distinct
  rw [List.Nodup, List.pairwise_map] at ids
  refine ((orderBy_sorted _).and ids).imp ?_
  rintro first second ⟨le, differ⟩
  exact lt_of_le_of_ne le differ

/-- What the agent was not given lies after the page. -/
theorem KeptUp.after_page (kept : KeptUp env bearer group state) {poll : Poll}
    (isPoll : state.poll = some poll) {message : A2AMessage}
    (isRow : message ∈ state.tables.messages)
    (posted : postedTo poll.reader poll.done message = true)
    (beyond : largest state.returned < message.id) :
    message.id ∈ poll.page.map (·.id) ∨ largest (state.returned ++ poll.page) < message.id := by
  have facts := kept.poll poll isPoll
  have ahead : (∀ line ∈ poll.page, line.id < message.id) →
      largest (state.returned ++ poll.page) < message.id := by
    intro pageBelow
    refine largest_lt_of_forall ?_ (kept.rowIds message isRow).1
    intro line listed
    rcases List.mem_append.mp listed with before | now
    · exact lt_of_le_of_lt (le_largest before) beyond
    · exact pageBelow line now
  rcases facts.seen message isRow posted (facts.after ▸ beyond) with wasFound | below
  · rcases List.mem_map.mp wasFound with ⟨line, listed, isId⟩
    by_cases inPage : line ∈ poll.page
    · exact Or.inl (List.mem_map.mpr ⟨line, inPage, isId⟩)
    · right
      apply ahead
      intro other otherInPage
      rw [← isId]
      exact lt_of_not_mem_take facts.sorted (mem_orderBy.mpr listed) inPage otherInPage
  · right
    apply ahead
    intro line inPage
    exact below line (Poll.mem_of_page inPage)

theorem KeptUp.answer (kept : KeptUp env bearer group state) {poll : Poll}
    (isPoll : state.poll = some poll) (allRead : poll.rest = [])
    (fits : ((orderBy (·.id) poll.found).drop 100).all (·.id ∉ poll.due) = true) :
    KeptUp env bearer group { state with
      returned := state.returned ++ poll.page
      poll := none
      owed := state.owed ++ poll.due } := by
  have facts := kept.poll poll isPoll
  have readsDone : readerOf env bearer group state.tables = .ok (poll.reader, poll.done) := by
    simpa [allRead] using facts.reads
  refine ⟨kept.rowIds, kept.next_pos, ?_, ?_, ?_, ?_, fun _ isSome => nomatch isSome⟩
  · intro line listed
    rcases List.mem_append.mp listed with before | now
    · exact kept.rows line before
    · rcases (facts.rows line (Poll.mem_of_page now)).2 with ⟨message, isRow, isId, _⟩
      exact ⟨message, isRow, isId⟩
  · rw [List.map_append, List.nodup_append]
    refine ⟨kept.distinct, ?_, ?_⟩
    · refine List.Nodup.sublist ((List.take_sublist _ _).map _) ?_
      exact ((orderBy_perm _ _).map _).nodup_iff.mpr facts.distinct
    · intro first before second now sameId
      rcases List.mem_map.mp before with ⟨old, oldListed, rfl⟩
      rcases List.mem_map.mp now with ⟨new, newListed, rfl⟩
      have beyond := (facts.rows new (Poll.mem_of_page newListed)).1
      have atMost := le_largest oldListed
      rw [facts.after] at beyond
      exact absurd atMost (Nat.not_le.mpr (sameId ▸ beyond))
  · intro reader groups reads message isRow posted small
    have same := Except.ok.inj (readsDone.symm.trans reads)
    rw [Prod.mk.injEq] at same
    rcases same with ⟨rfl, rfl⟩
    rw [List.map_append, List.mem_append]
    by_cases before : message.id ≤ largest state.returned
    · exact Or.inl (kept.complete _ _ readsDone message isRow posted before)
    · rcases kept.after_page isPoll isRow posted (Nat.lt_of_not_le before) with now | after
      · exact Or.inr now
      · exact absurd small (Nat.not_le.mpr after)
  · intro id isOwed
    rw [List.map_append, List.mem_append]
    rcases List.mem_append.mp isOwed with before | now
    · exact Or.inl (kept.owed id before)
    · rcases facts.due id now with ⟨atMost, message, isRow, isId, posted, wasFound⟩
      by_cases small : id ≤ poll.after
      · exact Or.inl (atMost small)
      · right
        rw [allRead, List.append_nil] at posted
        have found := wasFound (Nat.lt_of_not_le small) (postedTo_iff.mp posted).2.2
        rcases List.mem_map.mp found with ⟨line, listed, rfl⟩
        have inOrder : line ∈ orderBy (·.id) poll.found := mem_orderBy.mpr listed
        rw [← List.take_append_drop 100 (orderBy _ _)] at inOrder
        rcases List.mem_append.mp inOrder with inPage | cut
        · exact List.mem_map_of_mem inPage
        · simp only [List.all_eq_true, decide_eq_true_eq] at fits
          exact absurd now (fits line cut)

theorem KeptUp.step (kept : KeptUp env bearer group state) {action : PollingAction}
    (few : state.few action = true) (keeps : state.keepsUp env bearer group action = true)
    (fires : state.step env bearer group action = some next) : KeptUp env bearer group next := by
  cases action with
  | post message =>
      simp only [Polling.step] at fires
      split at fires
      · rename_i small
        split at fires
        · rename_i stored row inserts
          cases fires
          exact kept.post small inserts
        · cases fires
          exact kept
      · cases fires
        exact kept
  | decide id status =>
      simp only [Polling.step] at fires
      split at fires
      · rename_i decided sets
        cases fires
        refine kept.decide ?_ sets
        rintro rfl
        exact keeps
      · cases fires
        exact kept
  | begin =>
      simp only [Polling.step] at fires
      split at fires
      · cases fires
      · split at fires
        · cases fires
          exact kept
        · rename_i reader groups reads
          cases fires
          exact kept.begin reads
  | read =>
      simp only [Polling.step] at fires
      split at fires
      · rename_i poll isPoll
        split at fires
        · rename_i toRead rest isRest
          cases fires
          simp only [Polling.few, isPoll, Option.all_some, isRest, List.head?_cons,
            decide_eq_true_eq] at few
          simp only [keepsUp, isPoll, Option.all_some] at keeps
          exact kept.read isPoll isRest few keeps
        · cases fires
      · cases fires
  | answer =>
      simp only [Polling.step] at fires
      split at fires
      · rename_i poll isPoll
        split at fires
        · rename_i allRead
          cases fires
          simp only [keepsUp, isPoll, Option.all_some] at keeps
          exact kept.answer isPoll allRead keeps
        · cases fires
      · cases fires

theorem KeptUp.start {tables : A2ATables} (ids : RowIds tables) (counts : 0 < tables.nextMessage) :
    KeptUp env bearer group (start tables) := by
  refine ⟨ids, counts, ?_, List.nodup_nil, ?_, ?_, fun _ isSome => nomatch isSome⟩
  · intro line listed
    simp [Polling.start] at listed
  · intro reader groups _ message isRow _ small
    have positive := (ids message isRow).1
    exact absurd small (Nat.not_le.mpr positive)
  · intro id isOwed
    simp [Polling.start] at isOwed

end Invariant

/-- In a run whose steps lose nothing, what was posted to the groups of an agent when a poll began
that has been answered was given to it, once. -/
theorem delivered_of_run {env : Env} {bearer group : String} {tables : A2ATables}
    {actions : List PollingAction} {state : Polling} (ids : RowIds tables)
    (counts : 0 < tables.nextMessage)
    (run : Run (step env bearer group)
      (fun state action => (state.few action && state.keepsUp env bearer group action) = true)
      (start tables) actions state) : state.Delivered := by
  have kept : KeptUp env bearer group state := by
    apply run.invariant
    · exact KeptUp.start ids counts
    · intro before after action kept admitted fires
      rw [Bool.and_eq_true] at admitted
      exact kept.step admitted.1 admitted.2 fires
  intro id isOwed
  exact List.count_eq_one_of_mem kept.distinct (kept.owed id isOwed)

section Alone

variable {env : Env} {bearer group : String} {state : Polling}

theorem exec_reads (state : Polling) {poll : Poll} {rest : List A2AGroup} (isPoll : state.poll = some poll)
    (unread : poll.rest = rest) :
    exec (step env bearer group) state (List.replicate rest.length .read ++ [.answer]) =
      some { state with
        returned := state.returned ++ (orderBy (·.id)
          (poll.found ++ rest.flatMap (linesOf state.tables poll.reader poll.after))).take 100
        poll := none
        owed := state.owed ++ poll.due } := by
  induction rest generalizing state poll with
  | nil => simp [exec, step, isPoll, unread, Poll.page]
  | cons next rest ih =>
      rw [List.length_cons, List.replicate_succ, List.cons_append, exec]
      simp only [step, isPoll, unread, Option.bind_some]
      rw [ih _ rfl rfl]
      simp

/-- A poll that nothing comes between returns what `listMessages` returns. -/
theorem exec_poll {page : List PublicMessage} (idle : state.poll = none)
    (lists : listMessages env state.tables bearer (toString (largest state.returned)) group =
      .ok page) :
    ∃ reads next, exec (step env bearer group) state
        (.begin :: (List.replicate reads .read ++ [.answer])) = some next ∧
      next.tables = state.tables ∧ next.returned = state.returned ++ page := by
  unfold listMessages at lists
  cases isCaller : caller env state.tables bearer with
  | error refusal =>
      rw [isCaller] at lists
      exact nomatch lists
  | ok reader =>
      cases member : memberGroups env state.tables reader.id group with
      | error refusal =>
          simp only [isCaller, bind, Except.bind, member] at lists
          exact nomatch lists
      | ok groups =>
          simp only [isCaller, bind, Except.bind, member, pure, Except.pure,
            Except.ok.injEq] at lists
          have reads : readerOf env bearer group state.tables = .ok (reader, groups) := by
            simp only [readerOf, isCaller, bind, Except.bind, member, pure, Except.pure]
          have executed : exec (step env bearer group)
              { state with poll := some (.start state.tables (largest state.returned) reader groups) }
              (List.replicate groups.length .read ++ [.answer]) = some _ :=
            exec_reads _ rfl rfl
          refine ⟨groups.length, _, Eq.trans ?_ executed, rfl,
            congrArg (state.returned ++ ·) lists⟩
          rw [exec]
          simp only [step, idle, reads, Option.bind_some]

end Alone

section Trials

/-- A message is posted while another one waits for its confirmation, and confirmed after a poll. -/
def confirmedBehind : List PollingAction :=
  [.post ⟨0, 1, "shop", "", "Ship the order", .pending, ""⟩,
    .post ⟨0, 1, "shop", "", "Ready", .posted, ""⟩, .begin, .read, .answer, .decide 2 .posted,
    .begin, .read, .answer]

/-- The same with the confirmation before the poll. -/
def confirmedAhead : List PollingAction :=
  [.post ⟨0, 1, "shop", "", "Ship the order", .pending, ""⟩,
    .post ⟨0, 1, "shop", "", "Ready", .posted, ""⟩, .decide 2 .posted, .begin, .read, .answer]

theorem ordersTables_rowIds : RowIds ordersTables := by
  unfold RowIds
  decide

theorem delivered_of_run_ahead :
    ∃ state, Run (step plainEnv "agt-1" "") (fun state action => (state.few action &&
        state.keepsUp plainEnv "agt-1" "" action) = true) (start ordersTables) confirmedAhead state ∧
      2 ∈ state.owed ∧ state.Delivered := by
  have ran : (execWhen (step plainEnv "agt-1" "") (fun state action => state.few action &&
      state.keepsUp plainEnv "agt-1" "" action) (start ordersTables) confirmedAhead).any
        (fun state => 2 ∈ state.owed) = true := by
    decide
  rcases (Option.any_eq_true _ _).mp ran with ⟨state, executed, facts⟩
  have run := run_of_execWhen executed
  exact ⟨state, run, by simpa using facts, delivered_of_run ordersTables_rowIds (by decide) run⟩

/-- A message that is confirmed late never comes. -/
theorem not_delivered :
    ¬∀ (env : Env) (bearer group : String) (tables : A2ATables) (actions : List PollingAction)
        (state : Polling), RowIds tables → 0 < tables.nextMessage →
      Run (step env bearer group) (fun state action => state.few action = true) (start tables)
        actions state → state.Delivered := by
  intro claim
  have ran : (execWhen (step plainEnv "agt-1" "") few (start ordersTables) confirmedBehind).any
      (fun state => 2 ∈ state.owed && (state.returned.map (·.id)).count 2 = 0) = true := by
    decide
  rcases (Option.any_eq_true _ _).mp ran with ⟨state, executed, facts⟩
  simp only [Bool.and_eq_true, decide_eq_true_eq] at facts
  have delivered := claim plainEnv "agt-1" "" ordersTables confirmedBehind state
    ordersTables_rowIds (by decide) (run_of_execWhen executed) 2 facts.1
  omega

end Trials

end Polling

end MikroLLM.A2A
