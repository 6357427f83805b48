import MikroLLM.A2A.Mailbox
import MikroLLM.Go.Json
import MikroLLM.Store.A2A

/-!
# Peer discovery and the group transcript

The handlers of `groups.go`, and what the admin does with a pending message. An
agent asks with the bearer it got when it registered; a group is the boundary of
what it can see.
-/

namespace MikroLLM.A2A

open Domain Go Library Store

/-- An error answer: its code and the text in `error`. -/
structure ApiError where
  code : ℕ
  message : String
  deriving DecidableEq

/-- What the handlers take from the standard library: texts, SHA-256 in `HashKey`, `url.Parse` and
`json.Marshal`. -/
structure Env where
  text : TextLibrary
  hashKey : String → String
  parseURL : String → Option ParsedURL
  marshal : Json → String

/-- The public profile of an agent, with the groups the reader may see. -/
structure PublicAgent where
  name : String
  displayName : String
  company : String
  description : String
  skills : List A2ASkill
  groups : List String
  push : Bool
  deriving DecidableEq

/-- `publicAgent`. -/
def publicAgent (agent : A2AUpstream) (groups : List String) : PublicAgent where
  name := agent.name
  displayName := agent.displayName
  company := agent.company
  description := agent.description
  skills := agent.skills
  groups := groups
  push := trimSpace agent.url ≠ ""

/-- A line of the transcript as an agent reads it. -/
structure PublicMessage where
  id : MessageId
  group : String
  fromAgent : String
  toAgent : String
  text : String
  status : A2AStatus
  createdAt : String
  deriving DecidableEq

/-- `publicMessage`. -/
def publicMessage (group : String) (message : A2AMessage) : PublicMessage where
  id := message.id
  group := group
  fromAgent := message.fromAgent
  toAgent := message.toAgent
  text := message.body
  status := message.status
  createdAt := message.createdAt

/-- The answer of `GET /a2a/directory`. -/
structure Directory where
  self : PublicAgent
  connect : String
  agents : List PublicAgent
  deriving DecidableEq

variable (env : Env) (tables : A2ATables)

/-- `groups.caller`, for the bearer of the request. -/
def caller (bearer : String) : Except ApiError A2AUpstream :=
  if hasPrefix bearer "agt-" && (bytesOf bearer).length ≤ 200 then
    match tables.getA2AByAuthHash (env.hashKey bearer) with
    | some agent => if agent.enabled then .ok agent else .error ⟨401, "unauthorized"⟩
    | none => .error ⟨401, "unauthorized"⟩
  else .error ⟨401, "unauthorized"⟩

/-- The names of the groups of another agent that the reader is in. -/
def intersection (mine : List A2AGroup) (agentId : AgentId) : List String :=
  ((tables.agentGroups agentId).map (·.name)).filter fun name => name ∈ mine.map (·.name)

/-- One member in the loop of `directory`: who was seen, and the profiles listed. -/
def directoryStep (self : A2AUpstream) (mine : List A2AGroup)
    (listed : List AgentId × List PublicAgent) (member : A2AUpstream) :
    List AgentId × List PublicAgent :=
  if member.id = self.id || !member.enabled || member.id ∈ listed.1 then listed
  else
    let inter := intersection tables mine member.id
    if inter = [] then listed
    else (member.id :: listed.1, listed.2 ++ [publicAgent member inter])

/-- The two loops of `directory`. -/
def directoryAgents (self : A2AUpstream) (mine : List A2AGroup) : List PublicAgent :=
  (mine.foldl
    (fun listed group =>
      (tables.listGroupAgents group.id).foldl (directoryStep tables self mine) listed)
    ([], [])).2

/-- `groups.directory`. -/
def directory (bearer : String) : Except ApiError Directory :=
  (caller env tables bearer).map fun self =>
    let mine := tables.agentGroups self.id
    ⟨publicAgent self (mine.map (·.name)), "/a2a/connect", directoryAgents tables self mine⟩

/-- `groups.memberGroups`. -/
def memberGroups (agentId : AgentId) (name : String) : Except ApiError (List A2AGroup) :=
  let mine := tables.agentGroups agentId
  if trimSpace name = "" then
    if mine = [] then .error ⟨403, "not in group"⟩ else .ok mine
  else
    match normalizeMCPName env.text (trimSpace name) with
    | none => .error ⟨400, "group name"⟩
    | some norm =>
        match mine.find? (·.name = norm) with
        | some group => .ok [group]
        | none => .error ⟨403, "not in group"⟩

/-- A line that `listMessages` shows to an agent. -/
def visibleTo (self : A2AUpstream) (message : A2AMessage) : Bool :=
  message.status ≠ .rejected && !(message.status = .pending && message.fromAgent ≠ self.name)

/-- The loops of `listMessages` and the sort after them. -/
def messagesOf (self : A2AUpstream) (after : ℤ) (groups : List A2AGroup) : List PublicMessage :=
  (orderBy (·.id) (groups.flatMap fun group =>
    ((tables.listA2AMessages group.id after 100).filter (visibleTo self)).map
      (publicMessage group.name))).take 100

/-- `groups.listMessages`, for the query parameters `after` and `group`. -/
def listMessages (bearer after group : String) : Except ApiError (List PublicMessage) := do
  let self ← caller env tables bearer
  let groups ← memberGroups env tables self.id group
  return messagesOf tables self (parseInt after) groups

/-- The body of `POST /a2a/register`. -/
structure RegReq where
  invite : String
  name : String
  token : String
  displayName : String
  company : String
  description : String
  url : Option String
  skills : Option (List A2ASkill)

/-- The answer of `POST /a2a/register`; a token is shown once, when the row is created. -/
structure Registered where
  name : String
  group : String
  groups : List String
  token : Option String

/-- `hashEq`. -/
def hashEq (hash plain : String) : Bool :=
  hash ≠ "" && trimSpace plain ≠ "" && env.hashKey (trimSpace plain) = hash

/-- The row that `register` saves. -/
def RegReq.apply (req : RegReq) (row : A2AUpstream) : A2AUpstream :=
  A2AUpstream.clean env.text { row with
    displayName := req.displayName
    company := req.company
    description := req.description
    skills := req.skills.getD row.skills
    url := (req.url.map trimSpace).getD row.url }

/-- The end of `register`: save the row and join the group. -/
def enroll (req : RegReq) (group : A2AGroup) (name : String) (row : A2AUpstream)
    (token : Option String) : A2ATables × Except ApiError Registered :=
  match tables.saveA2A env.text env.parseURL (req.apply env row) with
  | .error message =>
      (tables, .error ⟨if message = "agent name taken" then 409 else 400, message⟩)
  | .ok (saved, id) =>
      match saved.addAgentToGroup id group.id with
      | .error _ => (saved, .error ⟨500, "store"⟩)
      | .ok joined =>
          (joined, .ok ⟨name, group.name, (joined.agentGroups id).map (·.name), token⟩)

/-- A row that `register` creates. -/
def newAgent (name authHash : String) : A2AUpstream :=
  ⟨0, name, "", "", true, false, "", "", "", [], authHash⟩

/-- `groups.register`; `token` is what `GenerateAgentToken` returns. -/
def register (req : RegReq) (token : String) : A2ATables × Except ApiError Registered :=
  if trimSpace req.invite = "" then (tables, .error ⟨401, "invite"⟩)
  else
    match tables.getA2AGroupByInvite (env.hashKey (trimSpace req.invite)) with
    | none => (tables, .error ⟨401, "invite"⟩)
    | some group =>
        match normalizeMCPName env.text req.name with
        | none => (tables, .error ⟨400, "agent name"⟩)
        | some name =>
            match tables.getA2AByName env.text name with
            | none =>
                enroll env tables req group name (newAgent name (env.hashKey token)) (some token)
            | some row =>
                if row.enabled = false then (tables, .error ⟨403, "disabled"⟩)
                else if hashEq env row.authHash req.token then
                  enroll env tables req group name row none
                else (tables, .error ⟨409, "agent name taken"⟩)

/-- The body of `POST /a2a/messages`. -/
structure MsgReq where
  group : String
  toAgent : String
  text : String
  confirm : Bool

/-- A message that was stored or decided, the addressee that `postMessage` found, and whom the
message is pushed to. -/
structure Posting where
  tables : A2ATables
  message : A2AMessage
  group : String
  target : Option A2AUpstream
  targets : List A2AUpstream

/-- `groups.inGroup`. -/
def inGroup (agentId : AgentId) (groupId : GroupId) : Bool :=
  (tables.agentGroups agentId).any (·.id = groupId)

/-- The members of a group but the sender. -/
def others (groupId : GroupId) (sender : String) : List A2AUpstream :=
  (tables.listGroupAgents groupId).filter (·.name ≠ sender)

/-- `groups.destinations`. -/
def destinations (groupId : GroupId) (sender : String) (target : Option A2AUpstream) :
    List A2AUpstream :=
  match target with
  | some agent => [agent]
  | none => others tables groupId sender

/-- The addressee that `postMessage` finds; `none` when the message is for the whole group. -/
def addressee (groupId : GroupId) (toAgent : String) : Except ApiError (Option A2AUpstream) :=
  if trimSpace toAgent = "" then .ok none
  else
    match normalizeMCPName env.text (trimSpace toAgent) with
    | none => .error ⟨400, "agent name"⟩
    | some name =>
        match tables.getA2AByName env.text name with
        | some target =>
            if target.enabled && inGroup tables target.id groupId then .ok (some target)
            else .error ⟨403, "not in group"⟩
        | none => .error ⟨403, "not in group"⟩

/-- `postMessage` after the caller and its groups are known. -/
def postTo (self : A2AUpstream) (group : A2AGroup) (req : MsgReq) (now : String) :
    Except ApiError Posting :=
  if trimSpace req.group = "" then .error ⟨400, "group name"⟩
  else if trimSpace req.text = "" then .error ⟨400, "message"⟩
  else
    match addressee env tables group.id req.toAgent with
    | .error refusal => .error refusal
    | .ok target =>
        let toAgent := (target.map (·.name)).getD ""
        let status : A2AStatus := if req.confirm then .pending else .posted
        match tables.insertA2AMessage
            ⟨0, group.id, self.name, toAgent, trimSpace req.text, status, now⟩ with
        | .error _ => .error ⟨400, "message"⟩
        | .ok (stored, message) =>
            .ok ⟨stored, message, group.name, target,
              if status = .posted then destinations stored group.id self.name target else []⟩

/-- `groups.postMessage`. -/
def postMessage (bearer : String) (req : MsgReq) (now : String) : Except ApiError Posting :=
  match caller env tables bearer with
  | .error refusal => .error refusal
  | .ok self =>
      match memberGroups env tables self.id req.group with
      | .error refusal => .error refusal
      | .ok [] => .error ⟨403, "not in group"⟩
      | .ok (group :: _) => postTo env tables self group req now

/-- `UI.messageTargets`. -/
def messageTargets (message : A2AMessage) : List A2AUpstream :=
  if message.toAgent ≠ "" then (tables.getA2AByName env.text message.toAgent).toList
  else others tables message.groupId message.fromAgent

/-- `UI.decideA2AMessage`; `none` when the message is not pending. -/
def decideA2AMessage (id : MessageId) (status : A2AStatus) : Option Posting :=
  match tables.getA2AMessage id with
  | none => none
  | some message =>
      if message.status ≠ .pending then none
      else
        match tables.setA2AMessageStatus id status with
        | .error _ => none
        | .ok decided =>
            let decidedMessage := { message with status := status }
            match decided.getA2AGroup message.groupId with
            | some group =>
                some ⟨decided, decidedMessage, group.name, none,
                  if status = .posted then messageTargets env decided decidedMessage else []⟩
            | none => some ⟨decided, decidedMessage, "", none, []⟩

section Targets

variable {env tables}

theorem mem_of_caller {bearer : String} {self : A2AUpstream}
    (isCaller : caller env tables bearer = .ok self) : self ∈ tables.agents := by
  unfold caller at isCaller
  split at isCaller
  · split at isCaller
    · rename_i agent found
      split at isCaller
      · cases isCaller
        unfold A2ATables.getA2AByAuthHash at found
        split at found
        · cases found
        · exact List.mem_of_find?_eq_some found
      · cases isCaller
    · cases isCaller
  · cases isCaller

theorem mem_others {groupId : GroupId} {sender : String} {agent : A2AUpstream}
    (listed : agent ∈ others tables groupId sender) :
    agent ∈ tables.agents ∧ (groupId, agent.id) ∈ tables.members :=
  A2ATables.mem_listGroupAgents.mp (List.mem_of_mem_filter listed)

theorem member_of_inGroup {agentId : AgentId} {groupId : GroupId}
    (isMember : inGroup tables agentId groupId = true) : (groupId, agentId) ∈ tables.members := by
  simp only [inGroup, List.any_eq_true, decide_eq_true_eq] at isMember
  rcases isMember with ⟨group, listed, rfl⟩
  exact (A2ATables.mem_agentGroups.mp listed).2

/-- An addressee is an enabled row in the group. -/
theorem addressee_spec {groupId : GroupId} {toAgent : String} {target : A2AUpstream}
    (found : addressee env tables groupId toAgent = .ok (some target)) :
    target ∈ tables.agents ∧ (groupId, target.id) ∈ tables.members := by
  unfold addressee at found
  split at found
  · cases found
  · split at found
    · cases found
    · split at found
      · rename_i row isRow
        split at found
        · rename_i admitted
          cases found
          rw [Bool.and_eq_true] at admitted
          exact ⟨A2ATables.mem_of_getA2AByName isRow, member_of_inGroup admitted.2⟩
        · cases found
      · cases found

/-- What a target of a message that is pushed has to do with it. -/
structure Targeted (posting : Posting) (agent : A2AUpstream) : Prop where
  row : agent ∈ posting.tables.agents
  posted : posting.message.status = .posted
  member : (posting.message.groupId, agent.id) ∈ posting.tables.members
  addressed : posting.message.toAgent ≠ "" → posting.target.map (·.id) = some agent.id

/-- A message is posted to its addressee or to the members of the group. -/
theorem postTo_spec {self : A2AUpstream} {group : A2AGroup} {req : MsgReq} {now : String}
    {posting : Posting} (posts : postTo env tables self group req now = .ok posting) :
    posting.tables.agents = tables.agents ∧ ∀ agent ∈ posting.targets, Targeted posting agent := by
  unfold postTo at posts
  split at posts
  · cases posts
  · split at posts
    · cases posts
    · split at posts
      · cases posts
      · rename_i target found
        simp only at posts
        split at posts
        · cases posts
        · rename_i stored message inserts
          simp only [Except.ok.injEq] at posts
          subst posts
          rcases A2ATables.insertA2AMessage_spec inserts with
            ⟨agents, _, members, groupId, toAgent, status⟩
          refine ⟨agents, ?_⟩
          intro agent listed
          by_cases isPosted : (if req.confirm then A2AStatus.pending else .posted) = .posted
          · simp only [if_pos isPosted] at listed
            cases target with
            | none =>
                rcases mem_others listed with ⟨row, member⟩
                refine ⟨row, status.trans isPosted, ?_, ?_⟩
                · simpa only [groupId] using member
                · intro hasAddressee
                  simp only [toAgent] at hasAddressee
                  exact absurd (by decide) hasAddressee
            | some row =>
                rw [destinations, List.mem_singleton] at listed
                subst listed
                rcases addressee_spec found with ⟨isRow, member⟩
                refine ⟨?_, status.trans isPosted, ?_, fun _ => rfl⟩
                · simpa only [agents] using isRow
                · simpa only [groupId, members] using member
          · simp only [if_neg isPosted] at listed
            cases listed

theorem postMessage_spec {bearer : String} {req : MsgReq} {now : String} {posting : Posting}
    (posts : postMessage env tables bearer req now = .ok posting) :
    posting.tables.agents = tables.agents ∧ ∀ agent ∈ posting.targets, Targeted posting agent := by
  unfold postMessage at posts
  split at posts
  · cases posts
  · split at posts
    · cases posts
    · cases posts
    · exact postTo_spec posts

/-- A message that is posted is a row that was inserted. -/
theorem postMessage_inserts {bearer : String} {req : MsgReq} {now : String} {posting : Posting}
    (posts : postMessage env tables bearer req now = .ok posting) :
    ∃ message, tables.insertA2AMessage message = .ok (posting.tables, posting.message) := by
  unfold postMessage at posts
  split at posts
  · cases posts
  · split at posts
    · cases posts
    · cases posts
    · unfold postTo at posts
      split at posts
      · cases posts
      · split at posts
        · cases posts
        · split at posts
          · cases posts
          · simp only at posts
            split at posts
            · cases posts
            · rename_i stored message inserts
              cases posts
              exact ⟨_, inserts⟩

theorem mem_messageTargets {message : A2AMessage} {agent : A2AUpstream}
    (listed : agent ∈ messageTargets env tables message) :
    (message.toAgent ≠ "" ∧ tables.getA2AByName env.text message.toAgent = some agent) ∨
      (message.toAgent = "" ∧ agent ∈ tables.agents ∧
        (message.groupId, agent.id) ∈ tables.members) := by
  unfold messageTargets at listed
  split at listed
  · rename_i hasAddressee
    exact Or.inl ⟨hasAddressee, Option.mem_toList.mp listed⟩
  · rename_i noAddressee
    exact Or.inr ⟨by simpa using noAddressee, mem_others listed⟩

/-- A decision changes the status of a pending message; a confirmed one has its targets looked up
again. -/
theorem decideA2AMessage_spec {id : MessageId} {status : A2AStatus} {posting : Posting}
    (decides : decideA2AMessage env tables id status = some posting) :
    posting.tables.agents = tables.agents ∧ posting.tables.members = tables.members ∧
      ∃ message, tables.getA2AMessage id = some message ∧
        posting.message = { message with status := status } ∧
          ∀ agent ∈ posting.targets, agent ∈ messageTargets env posting.tables posting.message := by
  unfold decideA2AMessage at decides
  split at decides
  · cases decides
  · rename_i message found
    split at decides
    · cases decides
    · split at decides
      · cases decides
      · rename_i decided sets
        rcases A2ATables.setA2AMessageStatus_spec sets with ⟨agents, _, members⟩
        simp only at decides
        split at decides
        · cases decides
          refine ⟨agents, members, message, found, rfl, ?_⟩
          intro agent listed
          simp only at listed
          split at listed
          · exact listed
          · cases listed
        · cases decides
          refine ⟨agents, members, message, found, rfl, ?_⟩
          intro agent listed
          cases listed

end Targets

/-- `messageSendBody`. -/
def messageSendBody (group : String) (message : A2AMessage) : Body :=
  let id := toString message.id
  let group := if group = "" then "group" else group
  let line : Json := .object [
    ("contextId", .string ("group:" ++ group ++ ":thread:main")),
    ("messageId", .string ("m" ++ id)),
    ("metadata", .object [("mikrollm", .object [("from", .string message.fromAgent),
      ("group", .string group), ("to", .string message.toAgent)])]),
    ("parts", .array [.object [("kind", .string "text"), ("text", .string message.body)]]),
    ("role", .string "user")]
  .object [("id", env.marshal (.string id)), ("jsonrpc", env.marshal (.string "2.0")),
    ("method", env.marshal (.string "message/send")),
    ("params", env.marshal (.object [("message", line)]))]

/-- `Join` of an agent's URL and an empty path. -/
def joinURL (base : String) : Option String :=
  let trimmed := String.ofList ((trimSpace base).toList.rdropWhile (· = '/'))
  if trimmed = "" then none else some trimmed

end MikroLLM.A2A
