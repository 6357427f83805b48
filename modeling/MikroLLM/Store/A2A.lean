import Mathlib.Data.Prod.Lex
import Mathlib.Data.String.Basic
import MikroLLM.Domain.A2A
import MikroLLM.Library.Keyed
import MikroLLM.Library.OrderBy

/-!
# Agents, groups and messages in the store

The tables `a2a_upstreams`, `a2a_groups`, `a2a_group_members` and `a2a_messages`
with the keys of the schema, and the statements that the gateway makes on them.
-/

namespace MikroLLM.Store

open Domain Go Library

/-- The directory tables; the two counters are those of `AUTOINCREMENT`. -/
structure A2ATables where
  agents : List A2AUpstream
  groups : List A2AGroup
  members : List (GroupId × AgentId)
  messages : List A2AMessage
  nextAgent : AgentId
  nextMessage : MessageId
  agents_id_nodup : (agents.map (·.id)).Nodup
  agents_name_nodup : (agents.map (·.name)).Nodup
  agents_id_lt : ∀ agent ∈ agents, agent.id < nextAgent
  groups_id_nodup : (groups.map (·.id)).Nodup
  groups_name_nodup : (groups.map (·.name)).Nodup
  members_nodup : members.Nodup
  messages_id_nodup : (messages.map (·.id)).Nodup
  messages_id_lt : ∀ message ∈ messages, message.id < nextMessage

namespace A2ATables

variable (tables : A2ATables)

/-- `Store.GetA2A`. -/
def getA2A (id : AgentId) : Option A2AUpstream :=
  tables.agents.find? (·.id = id)

/-- `Store.GetA2AByName`. -/
def getA2AByName (text : TextLibrary) (name : String) : Option A2AUpstream :=
  (normalizeMCPName text name).bind fun slug => tables.agents.find? (·.name = slug)

/-- `Store.GetA2AByAuthHash`. -/
def getA2AByAuthHash (hash : String) : Option A2AUpstream :=
  if trimSpace hash = "" then none else tables.agents.find? (·.authHash = trimSpace hash)

/-- `Store.GetA2AGroup`. -/
def getA2AGroup (id : GroupId) : Option A2AGroup :=
  tables.groups.find? (·.id = id)

/-- `Store.GetA2AGroupByInvite`. -/
def getA2AGroupByInvite (hash : String) : Option A2AGroup :=
  if trimSpace hash = "" then none else tables.groups.find? (·.inviteHash = trimSpace hash)

/-- `Store.AgentGroups`, ordered by name and id. -/
def agentGroups (agentId : AgentId) : List A2AGroup :=
  orderBy (fun group => toLex (group.name, group.id))
    (tables.groups.filter fun group => (group.id, agentId) ∈ tables.members)

/-- The agent is a member of the group. -/
def agentInGroup (groupId : GroupId) (agentId : AgentId) : Bool :=
  (groupId, agentId) ∈ tables.members

/-- `Store.ListGroupAgents`, ordered by name and id. -/
def listGroupAgents (groupId : GroupId) : List A2AUpstream :=
  orderBy (fun agent => toLex (agent.name, agent.id))
    (tables.agents.filter fun agent => (groupId, agent.id) ∈ tables.members)

/-- `Store.ListA2AMessages`. -/
def listA2AMessages (groupId : GroupId) (after : ℤ) (limit : ℤ) : List A2AMessage :=
  let limit := if limit ≤ 0 ∨ 200 < limit then 100 else limit
  let after := if after < 0 then 0 else after
  (orderBy (·.id) (tables.messages.filter fun message =>
    message.groupId = groupId && after < (message.id : ℤ))).take limit.toNat

/-- `Store.GetA2AMessage`. -/
def getA2AMessage (id : MessageId) : Option A2AMessage :=
  tables.messages.find? (·.id = id)

variable {tables}

theorem agents_nodup (tables : A2ATables) : tables.agents.Nodup :=
  tables.agents_id_nodup.of_map

theorem groups_nodup (tables : A2ATables) : tables.groups.Nodup :=
  tables.groups_id_nodup.of_map

theorem messages_nodup (tables : A2ATables) : tables.messages.Nodup :=
  tables.messages_id_nodup.of_map

/-- A row is known by its id. -/
theorem agent_ext {agent other : A2AUpstream} (inside : agent ∈ tables.agents)
    (alsoInside : other ∈ tables.agents) (sameId : agent.id = other.id) : agent = other :=
  List.inj_on_of_nodup_map tables.agents_id_nodup inside alsoInside sameId

/-- A row is known by its name. -/
theorem agent_ext_name {agent other : A2AUpstream} (inside : agent ∈ tables.agents)
    (alsoInside : other ∈ tables.agents) (sameName : agent.name = other.name) : agent = other :=
  List.inj_on_of_nodup_map tables.agents_name_nodup inside alsoInside sameName

theorem group_ext {group other : A2AGroup} (inside : group ∈ tables.groups)
    (alsoInside : other ∈ tables.groups) (sameId : group.id = other.id) : group = other :=
  List.inj_on_of_nodup_map tables.groups_id_nodup inside alsoInside sameId

/-- A group is known by its name. -/
theorem group_ext_name {group other : A2AGroup} (inside : group ∈ tables.groups)
    (alsoInside : other ∈ tables.groups) (sameName : group.name = other.name) : group = other :=
  List.inj_on_of_nodup_map tables.groups_name_nodup inside alsoInside sameName

theorem message_ext {message other : A2AMessage} (inside : message ∈ tables.messages)
    (alsoInside : other ∈ tables.messages) (sameId : message.id = other.id) : message = other :=
  List.inj_on_of_nodup_map tables.messages_id_nodup inside alsoInside sameId

@[simp]
theorem mem_agentGroups {agentId : AgentId} {group : A2AGroup} :
    group ∈ tables.agentGroups agentId ↔
      group ∈ tables.groups ∧ (group.id, agentId) ∈ tables.members := by
  simp [agentGroups]

@[simp]
theorem mem_listGroupAgents {groupId : GroupId} {agent : A2AUpstream} :
    agent ∈ tables.listGroupAgents groupId ↔
      agent ∈ tables.agents ∧ (groupId, agent.id) ∈ tables.members := by
  simp [listGroupAgents]

theorem agentGroups_nodup (tables : A2ATables) (agentId : AgentId) :
    (tables.agentGroups agentId).Nodup :=
  nodup_orderBy.mpr (tables.groups_nodup.filter _)

/-- The key of `ORDER BY name, id` tells groups apart. -/
theorem groups_order_distinct (groups : List A2AGroup) (sub : ∀ group ∈ groups, group ∈ tables.groups) :
    ∀ a ∈ groups, ∀ b ∈ groups, toLex (a.name, a.id) = toLex (b.name, b.id) → a = b := by
  intro a aListed b bListed same
  have parts := Prod.mk.inj (toLex.injective same)
  exact group_ext (sub a aListed) (sub b bListed) parts.2

theorem agents_order_distinct (agents : List A2AUpstream)
    (sub : ∀ agent ∈ agents, agent ∈ tables.agents) :
    ∀ a ∈ agents, ∀ b ∈ agents, toLex (a.name, a.id) = toLex (b.name, b.id) → a = b := by
  intro a aListed b bListed same
  have parts := Prod.mk.inj (toLex.injective same)
  exact agent_ext (sub a aListed) (sub b bListed) parts.2

theorem filter_agentGroups (tables : A2ATables) (agentId : AgentId) (keeps : A2AGroup → Bool) :
    (tables.agentGroups agentId).filter keeps =
      orderBy (fun group => toLex (group.name, group.id))
        ((tables.groups.filter fun group => (group.id, agentId) ∈ tables.members).filter keeps) :=
  filter_orderBy keeps (groups_order_distinct _ fun _ => List.mem_of_mem_filter)

theorem mem_of_getA2AByName {text : TextLibrary} {name : String} {agent : A2AUpstream}
    (found : tables.getA2AByName text name = some agent) : agent ∈ tables.agents := by
  rcases Option.bind_eq_some_iff.mp found with ⟨slug, _, isRow⟩
  exact List.mem_of_find?_eq_some isRow

section Writing

/-- The rows after one of them is overwritten. -/
def replaceAgent (row : A2AUpstream) (agents : List A2AUpstream) : List A2AUpstream :=
  agents.map fun agent => if agent.id = row.id then row else agent

theorem replaceAgent_map_id (row : A2AUpstream) (agents : List A2AUpstream) :
    (replaceAgent row agents).map (·.id) = agents.map (·.id) :=
  overwrite_map_key (·.id) row agents

theorem replaceAgent_name_nodup {row : A2AUpstream} {agents : List A2AUpstream}
    (ids : (agents.map (·.id)).Nodup) (names : (agents.map (·.name)).Nodup)
    (free : ∀ agent ∈ agents, agent.id ≠ row.id → agent.name ≠ row.name) :
    ((replaceAgent row agents).map (·.name)).Nodup :=
  overwrite_map_nodup ids names free

/-- `INSERT INTO a2a_upstreams`. -/
def insertAgent (tables : A2ATables) (row : A2AUpstream) :
    Except String (A2ATables × AgentId) :=
  if free : ∀ agent ∈ tables.agents, agent.name ≠ row.name then
    .ok ({ tables with
      agents := tables.agents ++ [{ row with id := tables.nextAgent }]
      nextAgent := tables.nextAgent + 1
      agents_id_nodup := append_map_nodup tables.agents_id_nodup fun agent inside =>
        Nat.ne_of_lt (tables.agents_id_lt agent inside)
      agents_name_nodup := append_map_nodup tables.agents_name_nodup free
      agents_id_lt := append_key_lt tables.agents_id_lt rfl }, tables.nextAgent)
  else .error "agent name taken"

/-- `UPDATE a2a_upstreams`. -/
def updateAgent (tables : A2ATables) (row : A2AUpstream) : Except String (A2ATables × AgentId) :=
  if free : ∀ agent ∈ tables.agents, agent.id ≠ row.id → agent.name ≠ row.name then
    .ok ({ tables with
      agents := replaceAgent row tables.agents
      agents_id_nodup := by
        rw [replaceAgent_map_id]
        exact tables.agents_id_nodup
      agents_name_nodup :=
        replaceAgent_name_nodup tables.agents_id_nodup tables.agents_name_nodup free
      agents_id_lt := overwrite_forall_key (p := (· < tables.nextAgent)) tables.agents_id_lt }, row.id)
  else .error "agent name taken"

/-- `Store.SaveA2A`. -/
def saveA2A (text : TextLibrary) (parse : String → Option ParsedURL) (tables : A2ATables)
    (agent : A2AUpstream) : Except String (A2ATables × AgentId) :=
  match normalizeMCPName text agent.name with
  | none => .error "agent name"
  | some name =>
      let url := trimSpace agent.url
      if url ≠ "" ∧ validMCPURL parse url = false then .error "agent url"
      else
        let row := { agent.clean text with name := name, url := url }
        if agent.id = 0 then tables.insertAgent row
        else
          match tables.getA2A agent.id with
          | none => .error "sql: no rows in result set"
          | some old =>
              tables.updateAgent { row with
                token := if agent.token = "" then old.token else agent.token
                authHash := if agent.authHash = "" then old.authHash else agent.authHash }

/-- `Store.DeleteA2A`; the memberships of the row go with it. -/
def deleteA2A (tables : A2ATables) (id : AgentId) : A2ATables :=
  { tables with
    agents := tables.agents.filter (·.id ≠ id)
    members := tables.members.filter (·.2 ≠ id)
    agents_id_nodup := tables.agents_id_nodup.sublist (List.filter_sublist.map _)
    agents_name_nodup := tables.agents_name_nodup.sublist (List.filter_sublist.map _)
    agents_id_lt := fun agent listed => tables.agents_id_lt agent (List.mem_of_mem_filter listed)
    members_nodup := tables.members_nodup.filter _ }

/-- `Store.DeleteA2AGroup`; the memberships and the messages of the row go with it. -/
def deleteA2AGroup (tables : A2ATables) (id : GroupId) : A2ATables :=
  { tables with
    groups := tables.groups.filter (·.id ≠ id)
    members := tables.members.filter (·.1 ≠ id)
    messages := tables.messages.filter (·.groupId ≠ id)
    groups_id_nodup := tables.groups_id_nodup.sublist (List.filter_sublist.map _)
    groups_name_nodup := tables.groups_name_nodup.sublist (List.filter_sublist.map _)
    members_nodup := tables.members_nodup.filter _
    messages_id_nodup := tables.messages_id_nodup.sublist (List.filter_sublist.map _)
    messages_id_lt := fun message listed =>
      tables.messages_id_lt message (List.mem_of_mem_filter listed) }

/-- The group ids that `SetAgentGroups` inserts. -/
def distinctIds (ids : List GroupId) : List GroupId :=
  ids.foldl (fun kept id => if id = 0 ∨ id ∈ kept then kept else kept ++ [id]) []

theorem distinctIds_nodup (ids : List GroupId) : (distinctIds ids).Nodup := by
  have kept : ∀ start : List GroupId, start.Nodup →
      (ids.foldl (fun kept id => if id = 0 ∨ id ∈ kept then kept else kept ++ [id])
        start).Nodup := by
    induction ids with
    | nil => exact fun _ nodup => nodup
    | cons id rest ih =>
        intro start nodup
        rw [List.foldl_cons]
        apply ih
        split
        · exact nodup
        · rename_i new
          rw [List.nodup_append]
          refine ⟨nodup, List.nodup_singleton _, ?_⟩
          intro old listed last isLast
          rw [List.mem_singleton] at isLast
          rintro rfl
          exact new (Or.inr (isLast ▸ listed))
  exact kept [] List.nodup_nil

/-- `Store.SetAgentGroups`; nothing changes when a group or the row is missing. -/
def setAgentGroups (tables : A2ATables) (agentId : AgentId) (groupIds : List GroupId) :
    Except String A2ATables :=
  let ids := distinctIds groupIds
  if (ids.all fun id => (tables.getA2AGroup id).isSome && (tables.getA2A agentId).isSome) then
    .ok { tables with
      members := tables.members.filter (·.2 ≠ agentId) ++ ids.map fun id => (id, agentId)
      members_nodup := by
        rw [List.nodup_append]
        refine ⟨tables.members_nodup.filter _, ?_, ?_⟩
        · exact (distinctIds_nodup groupIds).map fun _ _ same => (Prod.mk.inj same).1
        · intro pair kept new isNew
          rcases List.mem_map.mp isNew with ⟨id, _, rfl⟩
          rintro rfl
          simpa using List.of_mem_filter kept }
  else .error "group name"

/-- `Store.AddAgentToGroup`. -/
def addAgentToGroup (tables : A2ATables) (agentId : AgentId) (groupId : GroupId) :
    Except String A2ATables :=
  if (tables.getA2AGroup groupId).isSome ∧ (tables.getA2A agentId).isSome then
    if new : (groupId, agentId) ∉ tables.members then
      .ok { tables with
        members := tables.members ++ [(groupId, agentId)]
        members_nodup := by
          rw [List.nodup_append]
          refine ⟨tables.members_nodup, List.nodup_singleton _, ?_⟩
          intro pair listed last isLast
          rw [List.mem_singleton] at isLast
          rintro rfl
          exact new (isLast ▸ listed) }
    else .ok tables
  else .error "FOREIGN KEY constraint failed"

/-- `Store.InsertA2AMessage`. -/
def insertA2AMessage (tables : A2ATables) (message : A2AMessage) :
    Except String (A2ATables × A2AMessage) :=
  let row := { message with
    id := tables.nextMessage
    fromAgent := trimSpace message.fromAgent
    toAgent := trimSpace message.toAgent
    body := clipText message.body 8000 }
  if row.fromAgent = "" ∨ row.body = "" then .error "message"
  else if (tables.getA2AGroup row.groupId).isSome then
    .ok ({ tables with
      messages := tables.messages ++ [row]
      nextMessage := tables.nextMessage + 1
      messages_id_nodup := append_map_nodup tables.messages_id_nodup fun old inside =>
        Nat.ne_of_lt (tables.messages_id_lt old inside)
      messages_id_lt := append_key_lt tables.messages_id_lt rfl }, row)
  else .error "FOREIGN KEY constraint failed"

/-- The messages after a pending one is decided. -/
def decideMessage (id : MessageId) (status : A2AStatus) (messages : List A2AMessage) :
    List A2AMessage :=
  messages.map fun message =>
    if message.id = id ∧ message.status = .pending then { message with status := status }
    else message

theorem decideMessage_map_id (id : MessageId) (status : A2AStatus) (messages : List A2AMessage) :
    (decideMessage id status messages).map (·.id) = messages.map (·.id) := by
  rw [decideMessage, List.map_map]
  apply List.map_congr_left
  intro message _
  simp only [Function.comp_apply]
  split <;> rfl

/-- `Store.SetA2AMessageStatus`. -/
def setA2AMessageStatus (tables : A2ATables) (id : MessageId) (status : A2AStatus) :
    Except String A2ATables :=
  if status = .pending then .error "message"
  else if (tables.messages.any fun message => message.id = id && message.status = .pending) then
    .ok { tables with
      messages := decideMessage id status tables.messages
      messages_id_nodup := by
        rw [decideMessage_map_id]
        exact tables.messages_id_nodup
      messages_id_lt := by
        intro message listed
        have isId : message.id ∈ tables.messages.map (·.id) := by
          rw [← decideMessage_map_id id status]
          exact List.mem_map_of_mem listed
        rcases List.mem_map.mp isId with ⟨old, inside, sameId⟩
        rw [← sameId]
        exact tables.messages_id_lt old inside }
  else .error "sql: no rows in result set"

variable {text : TextLibrary} {parse : String → Option ParsedURL} {saved : A2ATables}

theorem insertAgent_agents {row : A2AUpstream} {id : AgentId}
    (inserts : tables.insertAgent row = .ok (saved, id)) :
    ∀ agent ∈ saved.agents, agent ∈ tables.agents ∨
      (agent.name = row.name ∧ agent.id = tables.nextAgent) := by
  unfold insertAgent at inserts
  split at inserts
  · cases inserts
    intro agent listed
    rcases List.mem_append.mp listed with old | new
    · exact Or.inl old
    · rw [List.mem_singleton] at new
      subst new
      exact Or.inr ⟨rfl, rfl⟩
  · cases inserts

theorem updateAgent_agents {row : A2AUpstream} {id : AgentId}
    (updates : tables.updateAgent row = .ok (saved, id)) :
    ∀ agent ∈ saved.agents, agent ∈ tables.agents ∨ agent = row := by
  unfold updateAgent at updates
  split at updates
  · cases updates
    intro agent listed
    rcases List.mem_map.mp listed with ⟨old, inside, replaced⟩
    split at replaced
    · exact Or.inr replaced.symm
    · exact Or.inl (replaced ▸ inside)
  · cases updates

/-- A save changes one row, and gives it the name in its normal form. -/
theorem saveA2A_agents {agent : A2AUpstream} {id : AgentId}
    (saves : saveA2A text parse tables agent = .ok (saved, id)) :
    ∀ row ∈ saved.agents, row ∈ tables.agents ∨
      (normalizeMCPName text agent.name = some row.name ∧
        row.id = if agent.id = 0 then tables.nextAgent else agent.id) := by
  unfold saveA2A at saves
  split at saves
  · cases saves
  · rename_i name normal
    simp only at saves
    split at saves
    · cases saves
    · split at saves
      · rename_i isNew
        intro row listed
        rcases insertAgent_agents saves row listed with old | ⟨sameName, sameId⟩
        · exact Or.inl old
        · rw [if_pos isNew]
          exact Or.inr ⟨normal.trans (congrArg some sameName.symm), sameId⟩
      · rename_i isOld
        split at saves
        · cases saves
        · intro row listed
          rcases updateAgent_agents saves row listed with old | rfl
          · exact Or.inl old
          · rw [if_neg isOld]
            refine Or.inr ⟨?_, ?_⟩
            · simp only [normal]
            · simp only [A2AUpstream.clean]

theorem setAgentGroups_agents {agentId : AgentId} {groupIds : List GroupId}
    (sets : tables.setAgentGroups agentId groupIds = .ok saved) :
    saved.agents = tables.agents := by
  unfold setAgentGroups at sets
  simp only at sets
  split at sets
  · cases sets
    rfl
  · cases sets

theorem addAgentToGroup_agents {agentId : AgentId} {groupId : GroupId}
    (adds : tables.addAgentToGroup agentId groupId = .ok saved) :
    saved.agents = tables.agents := by
  unfold addAgentToGroup at adds
  split at adds
  · split at adds
    · cases adds
      rfl
    · cases adds
      rfl
  · cases adds

/-- A new message is the last row, and it has the next id. -/
theorem insertA2AMessage_messages {message row : A2AMessage}
    (inserts : tables.insertA2AMessage message = .ok (saved, row)) :
    saved.messages = tables.messages ++ [row] ∧ row.id = tables.nextMessage ∧
      saved.nextMessage = tables.nextMessage + 1 := by
  unfold insertA2AMessage at inserts
  simp only at inserts
  split at inserts
  · cases inserts
  · split at inserts
    · simp only [Except.ok.injEq, Prod.mk.injEq] at inserts
      rcases inserts with ⟨rfl, rfl⟩
      exact ⟨rfl, rfl, rfl⟩
    · cases inserts

/-- A message keeps its group, its addressee and its status, and nothing else changes. -/
theorem insertA2AMessage_spec {message row : A2AMessage}
    (inserts : tables.insertA2AMessage message = .ok (saved, row)) :
    saved.agents = tables.agents ∧ saved.groups = tables.groups ∧ saved.members = tables.members ∧
      row.groupId = message.groupId ∧ row.toAgent = trimSpace message.toAgent ∧
        row.status = message.status := by
  unfold insertA2AMessage at inserts
  simp only at inserts
  split at inserts
  · cases inserts
  · split at inserts
    · simp only [Except.ok.injEq, Prod.mk.injEq] at inserts
      rcases inserts with ⟨rfl, rfl⟩
      simp only [and_self]
    · cases inserts

theorem setA2AMessageStatus_spec {id : MessageId} {status : A2AStatus}
    (sets : tables.setA2AMessageStatus id status = .ok saved) :
    saved.agents = tables.agents ∧ saved.groups = tables.groups ∧
      saved.members = tables.members := by
  unfold setA2AMessageStatus at sets
  split at sets
  · cases sets
  · split at sets
    · cases sets
      exact ⟨rfl, rfl, rfl⟩
    · cases sets

/-- A pending message is decided, and no other row changes. -/
theorem setA2AMessageStatus_messages {id : MessageId} {status : A2AStatus}
    (sets : tables.setA2AMessageStatus id status = .ok saved) :
    saved.messages = decideMessage id status tables.messages ∧
      saved.nextMessage = tables.nextMessage ∧ status ≠ .pending ∧
      ∃ message ∈ tables.messages, message.id = id ∧ message.status = .pending := by
  unfold setA2AMessageStatus at sets
  split at sets
  · cases sets
  · rename_i decides
    split at sets
    · rename_i isPending
      cases sets
      simp only [List.any_eq_true, Bool.and_eq_true, decide_eq_true_eq] at isPending
      exact ⟨rfl, rfl, decides, isPending⟩
    · cases sets

/-- What a row was before a message was decided. -/
theorem mem_decideMessage {id : MessageId} {status : A2AStatus} {messages : List A2AMessage}
    {message : A2AMessage} (listed : message ∈ decideMessage id status messages) :
    ∃ old ∈ messages, message.id = old.id ∧ message.groupId = old.groupId ∧
      message.fromAgent = old.fromAgent ∧
      ((old.id = id ∧ old.status = .pending ∧ message.status = status) ∨ message = old) := by
  rcases List.mem_map.mp listed with ⟨old, inside, rfl⟩
  refine ⟨old, inside, ?_⟩
  by_cases decided : old.id = id ∧ old.status = .pending
  · rw [if_pos decided]
    exact ⟨rfl, rfl, rfl, Or.inl ⟨decided.1, decided.2, rfl⟩⟩
  · rw [if_neg decided]
    exact ⟨rfl, rfl, rfl, Or.inr rfl⟩

/-- A row stays, and what is not pending stays as it is. -/
theorem exists_mem_decideMessage {id : MessageId} {status : A2AStatus} {messages : List A2AMessage}
    {old : A2AMessage} (inside : old ∈ messages) :
    ∃ message ∈ decideMessage id status messages, message.id = old.id ∧
      message.groupId = old.groupId ∧ message.fromAgent = old.fromAgent ∧
      (old.status ≠ .pending → message = old) := by
  refine ⟨_, List.mem_map_of_mem inside, ?_⟩
  by_cases decided : old.id = id ∧ old.status = .pending
  · rw [if_pos decided]
    exact ⟨rfl, rfl, rfl, fun fixed => absurd decided.2 fixed⟩
  · rw [if_neg decided]
    exact ⟨rfl, rfl, rfl, fun _ => rfl⟩

end Writing

end A2ATables

end MikroLLM.Store
